import RoboCrisp.Comms.DataDeclaration

namespace RoboCrisp.Comms

open RoboCrisp.Stream RoboCrisp.Util

-- The members that the functions of decl-defn-macros.hh work on. The macros put the
-- same functions into ModuleInput<> and Sensor<>.
structure NamedTyped where
  name_length : UInt8
  data_type : DataDeclaration
  name : Option Bytes
  owns_name : Bool
deriving DecidableEq

-- name_length ( _name ? static_cast<uint8_t>(strlen(_name)) : 0 )
def nameLength : Option CString → UInt8
  | none => 0
  | some name => UInt8.ofNat (strlen name)

-- name = new char[name_length + 1]; buf.read(name, name_length); name[name_length] = '\0';
def decodeName [Heap] (name_length : UInt8) : Decode Bytes := do
  match ← read name_length.toNat with
  | none => return Heap.alloc name_length.toNat ++ [0]
  | some bytes => return bytes ++ [0]

namespace NamedTyped

def empty : NamedTyped where
  name_length := 0
  data_type := .empty
  name := none
  owns_name := false

def ofName (name : Option CString) (data_type : DataDeclaration) (owns_name : Bool) :
    NamedTyped where
  name_length := nameLength name
  data_type := data_type
  name := name.map CString.block
  owns_name := owns_name

-- What the copy constructors do with these members.
def copy (obj : NamedTyped) : Option NamedTyped :=
  match obj.name with
  | none => some obj
  | some name =>
      if obj.owns_name then do
        let name ← strncpy name obj.name_length.toNat
        return { obj with name := some name }
      else some obj

-- NAMED_TYPED_COMMON_FUNC_DEFNS, with the header as the bytes in front of the tail.
def encode (obj : NamedTyped) (get_encoded_size : Nat) (header : Bytes) : Encode := do
  let buf ← get
  if buf.length - buf.offset < get_encoded_size then return .INSUFFICIENT_SPACE
  else do
    let _ ← write header
    let _ ← obj.data_type.encode_tail
    let _ ← writeName obj.name obj.name_length
    return .SUCCESS

-- What follows the read of the header in decode_copy.
def decode_rest [Heap] (out : NamedTyped) : Decode NamedTyped := do
  let (_, data_type) ← out.data_type.decode_tail
  let out := { out with data_type }
  if out.name_length ≠ 0 then do
    let name ← decodeName out.name_length
    return { out with name := some name, owns_name := true }
  else return out

end NamedTyped

end RoboCrisp.Comms
