import RoboCrisp.Comms.ModuleInput

namespace RoboCrisp.Comms

open RoboCrisp.Stream RoboCrisp.Util

inductive SensorType
  | UNKNOWN
  | SWITCH
  | PROXIMITY
  | ROTARY_ENCODER
  | GPS
  | CAMERA
deriving DecidableEq

def SensorType.code : SensorType → BitVec 5
  | .UNKNOWN => 0
  | .SWITCH => 1
  | .PROXIMITY => 2
  | .ROTARY_ENCODER => 3
  | .GPS => 4
  | .CAMERA => 5

inductive SensorReportingMode
  | POLL
  | ASYNC
deriving DecidableEq

def SensorReportingMode.code : SensorReportingMode → BitVec 1
  | .POLL => 0
  | .ASYNC => 1

-- Sensor<>. The bit fields hold whatever a peer sent.
structure Sensor extends NamedTyped where
  id : BitVec 10
  type : BitVec 5
  reporting_mode : BitVec 1
deriving DecidableEq

namespace Sensor

-- offsetof(Sensor<>, data_type) + DataDeclaration<>::HeaderSize
def HeaderSize : Nat := 3 + DataDeclaration.HeaderSize

def empty : Sensor := { NamedTyped.empty with id := 0, type := 0, reporting_mode := 0 }

-- A typed sensor as its conversion to Sensor<> leaves it.
def declare (name : CString) (type : SensorType) (data_type : DataDeclaration)
    (mode : SensorReportingMode) : Sensor :=
  { NamedTyped.ofName (some name) data_type false with
    id := 0, type := type.code, reporting_mode := mode.code }

-- The copy constructor.
def copy (s : Sensor) : Option Sensor := do
  let named ← s.toNamedTyped.copy
  return { s with toNamedTyped := named }

def get_name_length (s : Sensor) : Nat := if s.name.isSome then s.name_length.toNat else 0

def get_tail_size (s : Sensor) : Nat := s.get_name_length + s.data_type.get_tail_size

def get_encoded_size (s : Sensor) : Nat := HeaderSize + s.get_tail_size

-- The packed bit fields, lowest bits first.
def headerBits (id : BitVec 10) (type : BitVec 5) (reporting_mode : BitVec 1) : Nat :=
  id.toNat + 2 ^ 10 * type.toNat + 2 ^ 15 * reporting_mode.toNat

def header (s : Sensor) : Bytes :=
  littleEndian 2 (headerBits s.id s.type s.reporting_mode) ++ s.name_length :: s.data_type.header

def withHeader (out : Sensor) : Bytes → Sensor
  | low :: high :: name_length :: rest =>
      let bits := ofLittleEndian [low, high]
      { out with
        id := BitVec.ofNat 10 bits
        type := BitVec.ofNat 5 (bits / 2 ^ 10)
        reporting_mode := BitVec.ofNat 1 (bits / 2 ^ 15)
        name_length
        data_type := out.data_type.withHeader rest }
  | _ => out

def encode (s : Sensor) : Encode := s.toNamedTyped.encode s.get_encoded_size s.header

def decode_copy [Heap] : Decode Sensor := do
  let out := match ← read HeaderSize with
    | none => empty
    | some bytes => empty.withHeader bytes
  let rest ← out.decode_rest
  return { out with toNamedTyped := rest }

def decode [Heap] : Decode (DecodeResult × Sensor) := do
  let out ← decode_copy
  return (.SUCCESS, out)

-- operator ==
def eq (s o : Sensor) : Option Bool :=
  if s.id = o.id && s.type = o.type && s.reporting_mode = o.reporting_mode &&
      s.name_length = o.name_length && s.data_type.eq o.data_type then
    ModuleInput.sameName s.name o.name s.name_length.toNat
  else some false

end Sensor

end RoboCrisp.Comms
