import RoboCrisp.Comms.NamedTyped

namespace RoboCrisp.Comms

open RoboCrisp.Stream RoboCrisp.Util

-- ModuleInput<>
structure ModuleInput extends NamedTyped where
  input_id : UInt8
deriving DecidableEq

namespace ModuleInput

-- offsetof(ModuleInput<>, data_type) + DataDeclaration<>::HeaderSize
def HeaderSize : Nat := 2 + DataDeclaration.HeaderSize

def empty : ModuleInput := { NamedTyped.empty with input_id := 0 }

-- The declaring constructors. The one that takes a `char*` owns its name.
def declare (name : Option CString) (id : UInt8) (data_type : DataDeclaration)
    (owns_name : Bool) : ModuleInput :=
  { NamedTyped.ofName name data_type owns_name with input_id := id }

-- The copy constructor.
def copy (mi : ModuleInput) : Option ModuleInput := do
  let named ← mi.toNamedTyped.copy
  return { mi with toNamedTyped := named }

def get_name_length (mi : ModuleInput) : Nat := mi.name_length.toNat

def get_tail_size (mi : ModuleInput) : Nat := mi.get_name_length + mi.data_type.get_tail_size

def get_encoded_size (mi : ModuleInput) : Nat := HeaderSize + mi.get_tail_size

def header (mi : ModuleInput) : Bytes := mi.input_id :: mi.name_length :: mi.data_type.header

def withHeader (out : ModuleInput) : Bytes → ModuleInput
  | input_id :: name_length :: rest =>
      { out with input_id, name_length, data_type := out.data_type.withHeader rest }
  | _ => out

def encode (mi : ModuleInput) : Encode :=
  mi.toNamedTyped.encode mi.get_encoded_size mi.header

def decode_copy [Heap] : Decode ModuleInput := do
  let out := match ← read HeaderSize with
    | none => empty
    | some bytes => empty.withHeader bytes
  let rest ← out.decode_rest
  return { out with toNamedTyped := rest }

def decode [Heap] : Decode (DecodeResult × ModuleInput) := do
  let out ← decode_copy
  return (.SUCCESS, out)

-- memcmp(name, o.name, get_name_length()). The names are only followed when there is
-- something to compare.
def sameName (name other : Option Bytes) (name_length : Nat) : Option Bool :=
  if name_length = 0 then some true
  else do
    let name ← name
    let other ← other
    let first ← load name name_length
    let second ← load other name_length
    return first = second

-- operator ==
def eq (mi o : ModuleInput) : Option Bool :=
  if mi.input_id = o.input_id && mi.get_name_length = o.get_name_length &&
      mi.data_type.eq o.data_type then
    sameName mi.name o.name mi.get_name_length
  else some false

end ModuleInput

end RoboCrisp.Comms
