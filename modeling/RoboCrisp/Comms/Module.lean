import RoboCrisp.Comms.ModuleInput
import RoboCrisp.Comms.Sensor
import RoboCrisp.Util.SArray

namespace RoboCrisp.Comms

open RoboCrisp.Stream RoboCrisp.Util

structure Module where
  id : UInt8
  num_inputs : UInt8
  num_sensors : UInt8
  name_length : UInt8
  name : Option Bytes
  inputs : SArray ModuleInput
  sensors : SArray Sensor
  next_input_id : UInt8
  next_sensor_id : UInt8
  owns_name : Bool
deriving DecidableEq

-- The loop over the elements of an array that returns the first failure. The assertion
-- compares what the element's encode wrote with the size it announces.
def encodeEach {α : Type} (encode : α → Encode) (get_encoded_size : α → Nat) : List α → Encode
  | [] => pure .SUCCESS
  | element :: rest => do
      let pre ← get
      let r ← encode element
      if r ≠ .SUCCESS then return r
      else do
        let post ← get
        if post.offset - pre.offset = get_encoded_size element then
          encodeEach encode get_encoded_size rest
        else StateT.lift none

-- The loop over two arrays that ends at the first pair of elements that are not equal.
def eqEach {α : Type} (eq : α → α → Option Bool) (first second : SArray α) (count : Nat) :
    Option Bool :=
  (List.range count).foldlM (fun same i => do
    if same then
      let a ← first.get i
      let b ← second.get i
      eq a b
    else return false) true

namespace Module

def MAX_INPUTS : Nat := 15

-- offsetof(Module, name)
def HeaderSize : Nat := 4

-- The default constructor.
def empty : Module where
  id := 0
  num_inputs := 0
  num_sensors := 0
  name_length := 0
  name := none
  inputs := .empty
  sensors := .empty
  next_input_id := 0
  next_sensor_id := 0
  owns_name := false

-- Module(const char* _name, uint8_t _inputs_capacity, uint8_t _sensors_capacity)
def declare (name : Option CString) (inputs_capacity sensors_capacity : UInt8) : Module :=
  { empty with
    name_length := nameLength name
    name := name.map CString.block
    inputs := .alloc inputs_capacity.toNat
    sensors := .alloc sensors_capacity.toNat }

-- The copy constructor.
def copy (m : Module) : Option Module := do
  let inputs ← m.inputs.copy ModuleInput.copy
  let sensors ← m.sensors.copy Sensor.copy
  if m.owns_name then
    let source ← m.name
    let name ← strncpy source m.name_length.toNat
    return { m with name := some name, inputs, sensors }
  else return { m with inputs, sensors }

-- A name that is not owned stays behind with its length.
def reset (m : Module) : Module :=
  let owned := m.owns_name && m.name.isSome
  { m with
    name_length := if owned then 0 else m.name_length
    name := if owned then none else m.name
    num_inputs := 0
    num_sensors := 0
    inputs := m.inputs.clear
    sensors := m.sensors.clear
    next_input_id := 0
    next_sensor_id := 0
    owns_name := false }

-- operator =(const Module&) from another object, and from the object itself. The arrays have
-- been cleared by then.
def assign (m o : Module) : Option Module := do
  let m := m.reset
  let inputs ← m.inputs.assign ModuleInput.copy o.inputs
  let sensors ← m.sensors.assign Sensor.copy o.sensors
  if o.owns_name then
    let source ← o.name
    let name ← strncpy source o.name_length.toNat
    return { o with name := some name, inputs, sensors }
  else return { o with inputs, sensors }

def assignSelf (m : Module) : Module :=
  let m := m.reset
  { m with inputs := m.inputs.assignSelf, sensors := m.sensors.assignSelf }

-- operator =(Module&&) from another object, what it leaves of that, and from the object itself
def moveAssign (_ o : Module) : Module := o

def movedFrom (m : Module) : Module :=
  { m with name := none, inputs := m.inputs.movedFrom, sensors := m.sensors.movedFrom }

def moveSelf (m : Module) : Module :=
  { m with name := none, inputs := m.inputs.moveSelf, sensors := m.sensors.moveSelf }

def header (m : Module) : Bytes := [m.id, m.num_inputs, m.num_sensors, m.name_length]

def withHeader (m : Module) : Bytes → Module
  | [id, num_inputs, num_sensors, name_length] => { m with id, num_inputs, num_sensors, name_length }
  | _ => m

def get_encoded_size (m : Module) : Option Nat := do
  let inputs ← m.inputs.elems
  let sensors ← m.sensors.elems
  return HeaderSize + m.name_length.toNat + (inputs.map ModuleInput.get_encoded_size).sum +
    (sensors.map Sensor.get_encoded_size).sum

def encode_inputs (m : Module) : Encode :=
  if m.num_inputs > 0 then do
    let inputs ← StateT.lift m.inputs.elems
    encodeEach ModuleInput.encode ModuleInput.get_encoded_size inputs
  else pure .SUCCESS

def encode_sensors (m : Module) : Encode :=
  if m.num_sensors > 0 then do
    let sensors ← StateT.lift m.sensors.elems
    encodeEach Sensor.encode Sensor.get_encoded_size sensors
  else pure .SUCCESS

def encode (m : Module) : Encode := do
  let _ ← write m.header
  let _ ← writeName m.name m.name_length
  m.encode_inputs.andThen m.encode_sensors

section Decode

variable [Heap]

def decode_name (m : Module) : Decode Module :=
  if m.name_length > 0 then do
    let name ← decodeName m.name_length
    return { m with name := some name, owns_name := true }
  else return { m with name := none, owns_name := false }

-- array.ensure_capacity(count) and count times array.push(decode_copy(buf))
def decodeEach {α : Type} (decode_copy : Decode α) (count : Nat) (array : SArray α) :
    Decode (SArray α) :=
  if count > 0 then
    Decoder.iterate (fun array => do
      let element ← decode_copy
      StateT.lift (array.push element)) count (array.ensure_capacity count)
  else return array

-- if ( num_inputs && inputs.data ) next_input_id = inputs.back().input_id + 1;
def restore_input_id (m : Module) : Option Module :=
  if m.num_inputs > 0 ∧ m.inputs.data.isSome then do
    let back ← m.inputs.back
    return { m with next_input_id := back.input_id + 1 }
  else some m

-- if ( num_sensors && sensors.data ) next_sensor_id = sensors.back().id + 1;
def restore_sensor_id (m : Module) : Option Module :=
  if m.num_sensors > 0 ∧ m.sensors.data.isSome then do
    let back ← m.sensors.back
    return { m with next_sensor_id := UInt8.ofNat (back.id.toNat + 1) }
  else some m

def decode (m : Module) : Decode (DecodeResult × Module) := do
  let m := m.reset
  let m := match ← read HeaderSize with
    | none => m
    | some bytes => m.withHeader bytes
  let m ← m.decode_name
  let inputs ← decodeEach ModuleInput.decode_copy m.num_inputs.toNat m.inputs
  let m := { m with inputs }
  let sensors ← decodeEach Sensor.decode_copy m.num_sensors.toNat m.sensors
  let m := { m with sensors }
  let m ← StateT.lift m.restore_input_id
  let m ← StateT.lift m.restore_sensor_id
  return (.SUCCESS, m)

end Decode

-- The argument is a generic input or the conversion of a typed one.
def add_input (m : Module) (input : ModuleInput) : Option Module := do
  let input ← input.copy
  let inputs ← m.inputs.push input
  let back ← SArray.indexBefore inputs.size
  let inputs ← inputs.modify back fun element => { element with input_id := m.next_input_id }
  return { m with
    num_inputs := m.num_inputs + 1
    inputs
    next_input_id := m.next_input_id + 1 }

-- The new element is found again through the counter, not through the array.
def add_sensor (m : Module) (sensor : Sensor) : Option Module := do
  let num_sensors := m.num_sensors + 1
  let sensor ← sensor.copy
  let sensors ← m.sensors.push sensor
  let last ← SArray.indexBefore num_sensors.toNat
  let sensors ← sensors.modify last fun element =>
    { element with id := BitVec.ofNat 10 m.next_sensor_id.toNat }
  return { m with num_sensors, sensors, next_sensor_id := m.next_sensor_id + 1 }

-- Find an input by name: the length of the name decides first.
def find_input (m : Module) (_name : CString) : Option (Option ModuleInput) :=
  (List.range m.num_inputs.toNat).foldlM (fun found i => do
    match found with
    | some input => return some input
    | none =>
        let input ← m.inputs.get i
        if input.name_length.toNat = strlen _name then
          let same ← strncmp _name.block (input.name.getD []) input.name_length.toNat
          return if same then some input else none
        else return none) none

-- name_length == 0 || (name && o.name && !memcmp(name, o.name, name_length))
def sameName (m o : Module) : Option Bool :=
  if m.name_length = 0 then some true
  else
    match m.name, o.name with
    | some name, some other => do
        let first ← load name m.name_length.toNat
        let second ← load other m.name_length.toNat
        return first = second
    | _, _ => some false

-- operator ==
def eq (m o : Module) : Option Bool :=
  if m.header = o.header then do
    let names ← m.sameName o
    if names then
      let sensors ← eqEach Sensor.eq m.sensors o.sensors m.num_sensors.toNat
      if sensors then eqEach ModuleInput.eq m.inputs o.inputs m.num_inputs.toNat else return false
    else return false
  else some false

end Module

end RoboCrisp.Comms
