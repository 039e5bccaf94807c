import RoboCrisp.Comms.Configuration
import RoboCrisp.Comms.DataValue

namespace RoboCrisp.Comms

open RoboCrisp.Stream RoboCrisp.Util

-- `input` is the object behind the pointer, `none` once that object is gone.
structure ValuePair where
  input : Option ModuleInput
  value : DataValue
deriving DecidableEq

-- operator ==
def ValuePair.eq (pair vp : ValuePair) : Option Bool := do
  let first ← pair.input
  let second ← vp.input
  let same ← first.eq second
  if same then pair.value.eq vp.value else some false

-- The key of the sort. It is only asked for while the input is there.
def ValuePair.input_id (pair : ValuePair) : Nat := (pair.input.map fun input => input.input_id.toNat).getD 0

structure ModuleControl where
  module_id : UInt8
  input_ids : BitVec 16
  module : Option Module
  values : SArray ValuePair
deriving DecidableEq

-- 1 << input_id, cut down to the bits of input_ids. The shift is undefined from 32 on.
def inputBit (input_id : UInt8) : Option (BitVec 16) :=
  if input_id.toNat < 32 then some (BitVec.twoPow 16 input_id.toNat) else none

-- The two ways to name an input.
inductive InputKey
  | name (name : CString)
  | input (input : ModuleInput)

namespace ModuleControl

-- offsetof(ModuleControl, module)
def HeaderSize : Nat := 3

-- The bit 1 << (8 * sizeof(input_ids) - 1)
def clearBit : BitVec 16 := BitVec.twoPow 16 15

-- The default constructor.
def empty : ModuleControl where
  module_id := 0
  input_ids := 0
  module := none
  values := .alloc 0

-- ModuleControl(const Module* _module) with the default capacity
def forModule (m : Module) : ModuleControl where
  module_id := m.id
  input_ids := 0
  module := some m
  values := (SArray.alloc 0).ensure_capacity m.num_inputs.toNat

def reset (mc : ModuleControl) (m : Option Module) : ModuleControl where
  module_id := 0
  input_ids := 0
  module := m
  values := mc.values.clear

def is_clear (mc : ModuleControl) : Bool := mc.input_ids.getLsbD 15

-- The inputs whose bits are set below the clear bit.
def setInputs (input_ids : BitVec 16) : List Nat := (List.range 15).filter input_ids.getLsbD

def get_num_values (mc : ModuleControl) : Nat :=
  if mc.is_clear then 0 else (setInputs mc.input_ids).length

def get_encoded_size (mc : ModuleControl) : Option Nat :=
  (List.range mc.get_num_values).foldlM (fun out i => do
    let pair ← mc.values.get i
    return out + pair.value.get_encoded_size) HeaderSize

-- operator ==, with its assertion
def eq (mc o : ModuleControl) : Option Bool :=
  if mc.module_id = o.module_id ∧ mc.input_ids = o.input_ids then
    if mc.get_num_values = mc.values.size then
      (List.range mc.get_num_values).foldlM (fun same i => do
        if same then
          let first ← mc.values.get i
          let second ← o.values.get i
          first.eq second
        else return false) true
    else none
  else some false

-- The input that a name stands for is looked up in the module.
def resolve (mc : ModuleControl) : InputKey → Option (Option ModuleInput)
  | .name name => do
      let m ← mc.module
      m.find_input name
  | .input input => some (some input)

def clear (mc : ModuleControl) (key : InputKey) : Option ModuleControl :=
  if mc.get_num_values = 0 then do
    let mc := { mc with input_ids := mc.input_ids ||| clearBit }
    match ← mc.resolve key with
    | none => return mc
    | some input => do
        let bit ← inputBit input.input_id
        return { mc with input_ids := mc.input_ids ||| bit }
  else none

-- The loop over the values that looks for the one of an input. Every input passed on
-- the way is followed.
def find_value (input_id : UInt8) : List ValuePair → Option (Option Nat)
  | [] => some none
  | pair :: rest => do
      let input ← pair.input
      if input.input_id = input_id then return some 0
      else do
        let found ← find_value input_id rest
        return found.map (· + 1)

-- std::sort. With two elements or more it follows the input of each.
def sort_values (values : SArray ValuePair) : Option (SArray ValuePair) := do
  let pairs ← values.elems
  if 2 ≤ pairs.length ∧ ∃ pair ∈ pairs, pair.input = none then none
  else values.sort fun a b => a.input_id ≤ b.input_id

-- Add a new value-pair.
def add_value (mc : ModuleControl) (input : ModuleInput) (bit : BitVec 16) :
    Option ModuleControl := do
  let values ← mc.values.push ⟨some input, .ofType input.data_type⟩
  let values ← sort_values values
  return { mc with input_ids := mc.input_ids ||| bit, values }

-- value_for(const ModuleInput<>&) with its assertions. The result is the index of the
-- value in the array. A call of itself that finds the bit still unset never ends.
def value_for (mc : ModuleControl) (input : ModuleInput) : Option (ModuleControl × Option Nat) := do
  let m ← mc.module
  if mc.get_num_values ≤ Module.MAX_INPUTS ∧ input.input_id < m.num_inputs then do
    let bit ← inputBit input.input_id
    let mc ← if mc.input_ids &&& bit = 0 then mc.add_value input bit else some mc
    if mc.input_ids &&& bit = 0 then none
    else do
      let pairs ← mc.values.elems
      let found ← find_value input.input_id pairs
      return (mc, found)
  else none

-- value_for by either key; an unknown name has no value.
def value_of (mc : ModuleControl) (key : InputKey) : Option (ModuleControl × Option Nat) := do
  match ← mc.resolve key with
  | none => return (mc, none)
  | some input => mc.value_for input

def set (mc : ModuleControl) (key : InputKey) (value : Bytes) : Option ModuleControl := do
  let (mc, dv) ← mc.value_of key
  match dv with
  | none => return mc
  | some i => do
      let pair ← mc.values.get i
      let dv ← pair.value.set value
      let values ← mc.values.modify i fun pair => { pair with value := dv }
      return { mc with values }

-- `get` takes its argument by value: when the call adds a value for an input, that value
-- points to the argument, which is gone when the call returns.
def get (mc : ModuleControl) (key : InputKey) (size : Nat) : Option ModuleControl := do
  let (after, dv) ← mc.value_of key
  match dv with
  | none => return after
  | some i => do
      let pair ← after.values.get i
      let _ ← pair.value.get size
      match key with
      | .name _ => return after
      | .input _ =>
          if after.input_ids = mc.input_ids then return after
          else do
            let values ← after.values.modify i fun pair => { pair with input := none }
            return { after with values }

-- What that call returns. Without a value it is the zero of the type asked for.
def get_value (mc : ModuleControl) (key : InputKey) (size : Nat) : Option Bytes := do
  let (after, dv) ← mc.value_of key
  match dv with
  | none => return List.replicate size 0
  | some i => do
      let pair ← after.values.get i
      pair.value.get size

def header (mc : ModuleControl) : Bytes :=
  mc.module_id :: littleEndian 2 mc.input_ids.toNat

def withHeader (mc : ModuleControl) : Bytes → ModuleControl
  | module_id :: rest => { mc with module_id, input_ids := BitVec.ofNat 16 (ofLittleEndian rest) }
  | [] => mc

def encode_values (values : SArray ValuePair) : List Nat → Encode
  | [] => pure .SUCCESS
  | i :: rest => do
      let pair ← StateT.lift (values.get i)
      pair.value.encode.andThen (encode_values values rest)

def encode (mc : ModuleControl) : Encode := do
  let _ ← write mc.header
  if mc.is_clear then return .SUCCESS
  else encode_values mc.values (List.range mc.get_num_values)

-- The value of each input whose bit is set, with its type taken from the configuration.
def decode_values [Heap] (m : Module) : List Nat → SArray ValuePair → Decode (SArray ValuePair)
  | [], values => return values
  | i :: rest, values =>
      if i < m.num_inputs.toNat then do
        let input ← StateT.lift (m.inputs.get i)
        let value ← DataValue.decode input.data_type
        let values ← StateT.lift (values.push ⟨some input, value⟩)
        decode_values m rest values
      else StateT.lift none

-- What decode does behind the header.
def decode_tail [Heap] (mc : ModuleControl) (config : Configuration) :
    Decode (DecodeResult × ModuleControl) :=
  if mc.is_clear then return (.SUCCESS, mc)
  else do
    let num_values := mc.get_num_values
    let values := if num_values > 0 then mc.values.ensure_capacity num_values else mc.values
    let values ←
      match (List.range 16).filter mc.input_ids.getLsbD with
      | [] => pure values
      | inputs => do
          let m ← StateT.lift (config.modules.get mc.module_id.toNat)
          decode_values m inputs values
    return (.SUCCESS, { mc with values })

-- The first byte is looked at before anything is read.
def decode [Heap] (mc : ModuleControl) (config : Configuration) :
    Decode (DecodeResult × ModuleControl) := do
  let buf ← MonadState.get
  let module_id ← StateT.lift buf.rest.head?
  let m ← StateT.lift (config.modules.get module_id.toNat)
  let mc := mc.reset (some m)
  match ← read HeaderSize with
  | none => mc.decode_tail config
  | some bytes => (mc.withHeader bytes).decode_tail config

-- TranscodeAsType out; out.decode(buf, config); return out;
def decode_copy [Heap] (config : Configuration) : Decode ModuleControl := do
  let (_, out) ← empty.decode config
  return out

end ModuleControl

end RoboCrisp.Comms
