import RoboCrisp.Comms.Configuration
import Mathlib.Data.List.Forall2

namespace RoboCrisp.Comms

open RoboCrisp.Stream RoboCrisp.Util

-- What the objects of a configuration say, without where and how they keep it, and
-- the bytes that say it to a peer.

-- A neutral, minimum or maximum value that fits the space set aside for it.
structure Bound (width : Nat) where
  bytes : Bytes
  length_eq : bytes.length = width
  width_le : width ≤ 16

def Bound.wire {width : Nat} : Option (Bound width) → Bytes
  | none => []
  | some bound => bound.bytes

structure DeclarationContents where
  type : BitVec 6
  width : BitVec 5
  is_array : Bool
  is_signed : Bool
  array_size_width : UInt8
  neutral_value : Option (Bound width.toNat)
  minimum_value : Option (Bound width.toNat)
  maximum_value : Option (Bound width.toNat)

namespace DeclarationContents

def header (s : DeclarationContents) : Bytes :=
  littleEndian DataDeclaration.HeaderSize (DataDeclaration.headerBits s.type s.width s.is_array
    s.is_signed s.neutral_value.isSome s.minimum_value.isSome s.maximum_value.isSome
    s.array_size_width)

def tail (s : DeclarationContents) : Bytes :=
  Bound.wire s.neutral_value ++ (Bound.wire s.minimum_value ++ Bound.wire s.maximum_value)

def wire (s : DeclarationContents) : Bytes := s.header ++ s.tail

end DeclarationContents

-- What inputs and sensors have in common.
structure NamedContents where
  name : Bytes
  name_length_lt : name.length < 256
  data_type : DeclarationContents

namespace NamedContents

def rest (s : NamedContents) : Bytes := s.data_type.tail ++ s.name

end NamedContents

structure InputContents extends NamedContents where
  input_id : UInt8

namespace InputContents

def header (s : InputContents) : Bytes :=
  s.input_id :: UInt8.ofNat s.name.length :: s.data_type.header

def wire (s : InputContents) : Bytes := s.header ++ s.rest

end InputContents

structure SensorContents extends NamedContents where
  id : BitVec 10
  type : BitVec 5
  reporting_mode : BitVec 1

namespace SensorContents

def header (s : SensorContents) : Bytes :=
  littleEndian 2 (Sensor.headerBits s.id s.type s.reporting_mode) ++
    UInt8.ofNat s.name.length :: s.data_type.header

def wire (s : SensorContents) : Bytes := s.header ++ s.rest

end SensorContents

structure ModuleContents where
  id : UInt8
  name : Bytes
  name_length_lt : name.length < 256
  inputs : List InputContents
  num_inputs_lt : inputs.length < 256
  sensors : List SensorContents
  num_sensors_lt : sensors.length < 256

namespace ModuleContents

def header (s : ModuleContents) : Bytes :=
  [s.id, UInt8.ofNat s.inputs.length, UInt8.ofNat s.sensors.length, UInt8.ofNat s.name.length]

def wire (s : ModuleContents) : Bytes :=
  s.header ++ (s.name ++ (s.inputs.flatMap InputContents.wire ++ s.sensors.flatMap SensorContents.wire))

end ModuleContents

structure ConfigurationContents where
  modules : List ModuleContents
  num_modules_lt : modules.length < 256

namespace ConfigurationContents

def wire (s : ConfigurationContents) : Bytes :=
  UInt8.ofNat s.modules.length :: s.modules.flatMap ModuleContents.wire

end ConfigurationContents

-- An object represents contents when every field says the same.

structure DataDeclaration.Holds {width : Nat} (present : Bool) (slot : Slot)
    (bound : Option (Bound width)) : Prop where
  present_eq : present = bound.isSome
  prefix_of : ∀ b, bound = some b → b.bytes <+: slot.bytes

structure DataDeclaration.Represents (obj : DataDeclaration) (s : DeclarationContents) : Prop where
  type_eq : obj.type = s.type
  width_eq : obj.width = s.width
  is_array_eq : obj.is_array = s.is_array
  is_signed_eq : obj.is_signed = s.is_signed
  array_size_width_eq : obj.array_size_width = s.array_size_width
  neutral : DataDeclaration.Holds obj.has_neutral_value obj.neutral_value s.neutral_value
  minimum : DataDeclaration.Holds obj.has_minimum_value obj.minimum_value s.minimum_value
  maximum : DataDeclaration.Holds obj.has_maximum_value obj.maximum_value s.maximum_value

structure NamedTyped.Represents (obj : NamedTyped) (s : NamedContents) : Prop where
  data_type : obj.data_type.Represents s.data_type
  name : NameIs obj.name obj.name_length s.name

structure ModuleInput.Represents (mi : ModuleInput) (s : InputContents) : Prop where
  named : mi.toNamedTyped.Represents s.toNamedContents
  input_id_eq : mi.input_id = s.input_id

structure Sensor.Represents (obj : Sensor) (s : SensorContents) : Prop where
  named : obj.toNamedTyped.Represents s.toNamedContents
  id_eq : obj.id = s.id
  type_eq : obj.type = s.type
  reporting_mode_eq : obj.reporting_mode = s.reporting_mode

structure Module.Represents (m : Module) (s : ModuleContents) : Prop where
  id_eq : m.id = s.id
  name : NameIs m.name m.name_length s.name
  num_inputs_eq : m.num_inputs.toNat = s.inputs.length
  inputs : ∃ inputs, m.inputs.Holds inputs ∧ List.Forall₂ ModuleInput.Represents inputs s.inputs
  num_sensors_eq : m.num_sensors.toNat = s.sensors.length
  sensors : ∃ sensors, m.sensors.Holds sensors ∧ List.Forall₂ Sensor.Represents sensors s.sensors

structure Configuration.Represents (c : Configuration) (s : ConfigurationContents) : Prop where
  num_modules_eq : c.num_modules.toNat = s.modules.length
  modules : ∃ modules, c.modules.Contains modules ∧ List.Forall₂ Module.Represents modules s.modules

-- What the encoders see of an object. The loops over an array only need its elements.

structure Module.Shows (m : Module) (s : ModuleContents) : Prop where
  id_eq : m.id = s.id
  name : NameIs m.name m.name_length s.name
  num_inputs_eq : m.num_inputs.toNat = s.inputs.length
  inputs : ∃ inputs, m.inputs.elems = some inputs ∧
    List.Forall₂ ModuleInput.Represents inputs s.inputs
  num_sensors_eq : m.num_sensors.toNat = s.sensors.length
  sensors : ∃ sensors, m.sensors.elems = some sensors ∧
    List.Forall₂ Sensor.Represents sensors s.sensors

structure Configuration.Shows (c : Configuration) (s : ConfigurationContents) : Prop where
  num_modules_eq : c.num_modules.toNat = s.modules.length
  modules : ∃ modules, c.modules.elems = some modules ∧ List.Forall₂ Module.Shows modules s.modules

end RoboCrisp.Comms
