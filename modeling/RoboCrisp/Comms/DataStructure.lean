import RoboCrisp.Comms.APIElement
import RoboCrisp.Comms.Module

namespace RoboCrisp.Comms

open RoboCrisp.Stream RoboCrisp.Util

-- DataField<>, with what DataFieldBase<> takes from its two bases.
structure DataField extends APIElement where
  declaration : DataDeclaration
deriving DecidableEq

namespace DataField

def empty : DataField := { APIElement.empty with declaration := .empty }

-- The constructor of DataFieldBase<>, which copies its strings.
def construct (symbol use description : Option CString) (base : DataDeclaration) :
    Option DataField := do
  let element ← APIElement.copied symbol use description
  return { element with declaration := base }

-- operator ==
def eq (obj other : DataField) : Option Bool := do
  let same ← obj.toAPIElement.eq other.toAPIElement
  if same = false then return false
  obj.declaration.compare other.declaration

def get_encoded_size (obj : DataField) : Nat :=
  obj.toAPIElement.get_encoded_size + obj.declaration.get_encoded_size

def encode (obj : DataField) : Encode :=
  obj.toAPIElement.encode.andThen obj.declaration.encode

def decode (obj : DataField) : Decode (DecodeResult × DataField) := do
  let (r, element) ← APIElement.decode
  if r = .SUCCESS then
    let (r, declaration) ← DataDeclaration.decode
    return (r, { element with declaration })
  else return (r, { element with declaration := obj.declaration })

end DataField

structure DataStructure extends APIElement where
  fields : SArray DataField
deriving DecidableEq

namespace DataStructure

def ELEMENT_FIELDS : UInt8 := 8

-- The constructor. The structure does not copy its own strings. The fields come with the
-- pointers and lengths that their own constructor has given them.
def construct (symbol use description : Option CString) (_fields : List DataField) :
    Option DataStructure := do
  let fields ← (SArray.alloc _fields.length).pushAll _fields
  return { APIElement.refer symbol use description with fields }

def get_encoded_size (obj : DataStructure) : Option Nat := do
  let fields ← obj.fields.elems
  let u := obj.toAPIElement.get_encoded_size + (if obj.fields.size > 0 then 1 else 0)
  return fields.foldl (fun u f => u + f.get_encoded_size) u

-- The loop over the fields that returns the first failure.
def encode_fields : List DataField → Encode
  | [] => pure .SUCCESS
  | f :: rest => f.encode.andThen (encode_fields rest)

-- What APIElement::encode leaves in a block of just its size, with ELEMENT_FIELDS added to the
-- first byte. What the block holds behind the offset does not matter, as it is not written.
def encode_element (obj : DataStructure) : Option (EncodeResult × Bytes) := do
  let alloc_size := obj.toAPIElement.get_encoded_size
  let (r, membuf) ← obj.toAPIElement.encode (Sink.ofList (List.replicate alloc_size 0))
  let data :=
    if obj.fields.size > 0 then membuf.data.modify 0 (· ||| ELEMENT_FIELDS) else membuf.data
  return (r, data.take membuf.offset)

def encode (obj : DataStructure) : Encode := do
  let (r, bytes) ← StateT.lift obj.encode_element
  if r ≠ .SUCCESS then return r
  (write bytes).andThen
    (if obj.fields.size > 0 then
      (write [UInt8.ofNat obj.fields.size]).andThen do
        let fields ← StateT.lift obj.fields.elems
        encode_fields fields
    else pure .SUCCESS)

-- DataField<> f;  if ( (r = f.decode(buf)) != SUCCESS ) return r; else fields.push(std::move(f));
def decode_field : DecodeResult × SArray DataField → Decode (DecodeResult × SArray DataField)
  | (r, fields) =>
      if r ≠ .SUCCESS then return (r, fields)
      else do
        let (r, f) ← DataField.empty.decode
        if r ≠ .SUCCESS then return (r, fields)
        else
          let fields ← StateT.lift (fields.push f)
          return (r, fields)

-- The strings are reset, but fields that the target already holds stay.
def decode (obj : DataStructure) : Decode (DecodeResult × DataStructure) := do
  let mask ← Decoder.peek
  let (r, element) ← APIElement.decode
  let obj := { obj with toAPIElement := element }
  if r ≠ .SUCCESS then return (r, obj)
  else if mask &&& ELEMENT_FIELDS = 0 then return (.SUCCESS, obj)
  else
    let field_count ← readByte
    let fields := obj.fields.ensure_capacity field_count.toNat
    let (r, fields) ← Decoder.iterate decode_field field_count.toNat (.SUCCESS, fields)
    return (r, { obj with fields })

-- operator ==
def eq (obj ds : DataStructure) : Option Bool := do
  let same ← obj.toAPIElement.eq ds.toAPIElement
  if same = false then return false
  if obj.fields.size = ds.fields.size then eqEach DataField.eq obj.fields ds.fields obj.fields.size
  else return false

end DataStructure

end RoboCrisp.Comms
