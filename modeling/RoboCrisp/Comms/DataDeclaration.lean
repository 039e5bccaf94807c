import RoboCrisp.Comms.Buffer
import RoboCrisp.Stream.LittleEndian

namespace RoboCrisp.Comms

open RoboCrisp.Stream RoboCrisp.Util

inductive DataType
  | UNDEFINED
  | BOOLEAN
  | INTEGER
  | FLOAT
  | STRING
deriving DecidableEq

def DataType.code : DataType → BitVec 6
  | .UNDEFINED => 0
  | .BOOLEAN => 1
  | .INTEGER => 2
  | .FLOAT => 3
  | .STRING => 4

-- Storage for a neutral, minimum or maximum value: uint8_t[16].
structure Slot where
  bytes : Bytes
  length_eq : bytes.length = 16
deriving DecidableEq

def Slot.zero : Slot := ⟨List.replicate 16 0, rfl⟩

-- memcpy of `source` to the start of the slot. Running past the slot has no result.
def Slot.store (slot : Slot) (source : Bytes) : Option Slot :=
  if h : source.length ≤ 16 then
    some ⟨source ++ slot.bytes.drop source.length, by simp [slot.length_eq]; omega⟩
  else none

-- DataDeclarationBase<>. A peer may send any six bits as the type and any five as
-- the width, so both are kept as the raw bit fields.
structure DataDeclaration where
  type : BitVec 6
  width : BitVec 5
  is_array : Bool
  is_signed : Bool
  has_neutral_value : Bool
  has_minimum_value : Bool
  has_maximum_value : Bool
  array_size_width : UInt8
  neutral_value : Slot
  minimum_value : Slot
  maximum_value : Slot
deriving DecidableEq

namespace DataDeclaration

-- The default constructor.
def empty : DataDeclaration where
  type := DataType.UNDEFINED.code
  width := 0
  is_array := false
  is_signed := false
  has_neutral_value := false
  has_minimum_value := false
  has_maximum_value := false
  array_size_width := 0
  neutral_value := .zero
  minimum_value := .zero
  maximum_value := .zero

-- offsetof(DataDeclarationBase<>, neutral_value)
def HeaderSize : Nat := 3

-- The packed bit fields, lowest bits first.
def headerBits (type : BitVec 6) (width : BitVec 5) (is_array is_signed has_neutral_value
    has_minimum_value has_maximum_value : Bool) (array_size_width : UInt8) : Nat :=
  type.toNat + 2 ^ 6 * width.toNat + 2 ^ 11 * is_array.toNat + 2 ^ 12 * is_signed.toNat +
    2 ^ 13 * has_neutral_value.toNat + 2 ^ 14 * has_minimum_value.toNat +
    2 ^ 15 * has_maximum_value.toNat + 2 ^ 16 * array_size_width.toNat

def header (obj : DataDeclaration) : Bytes :=
  littleEndian HeaderSize (headerBits obj.type obj.width obj.is_array obj.is_signed
    obj.has_neutral_value obj.has_minimum_value obj.has_maximum_value obj.array_size_width)

-- A read of the header bytes into the object.
def withHeader (obj : DataDeclaration) (bytes : Bytes) : DataDeclaration :=
  let bits := ofLittleEndian bytes
  { obj with
    type := BitVec.ofNat 6 bits
    width := BitVec.ofNat 5 (bits / 2 ^ 6)
    is_array := bits.testBit 11
    is_signed := bits.testBit 12
    has_neutral_value := bits.testBit 13
    has_minimum_value := bits.testBit 14
    has_maximum_value := bits.testBit 15
    array_size_width := UInt8.ofNat (bits / 2 ^ 16) }

def get_tail_size (obj : DataDeclaration) : Nat :=
  obj.width.toNat *
    (obj.has_neutral_value.toNat + obj.has_minimum_value.toNat + obj.has_maximum_value.toNat)

def get_encoded_size (obj : DataDeclaration) : Nat := HeaderSize + obj.get_tail_size

def encode_bound (present : Bool) (slot : Slot) (width : Nat) : Encode :=
  if present then do
    let bytes ← StateT.lift (load slot.bytes width)
    write bytes
  else pure .SUCCESS

def encode_tail (obj : DataDeclaration) : Encode :=
  (encode_bound obj.has_neutral_value obj.neutral_value obj.width.toNat).andThen
    ((encode_bound obj.has_minimum_value obj.minimum_value obj.width.toNat).andThen
      (encode_bound obj.has_maximum_value obj.maximum_value obj.width.toNat))

def encode (obj : DataDeclaration) : Encode := (write obj.header).andThen obj.encode_tail

def decode_bound (present : Bool) (width : Nat) (dr : DecodeResult) (slot : Slot) :
    Decode (DecodeResult × Slot) :=
  if dr = .SUCCESS ∧ present = true then do
    match ← read width with
    | none => return (.BUFFER_UNDERFLOW, slot)
    | some bytes =>
        let slot ← StateT.lift (slot.store bytes)
        return (.SUCCESS, slot)
  else return (dr, slot)

def decode_tail (obj : DataDeclaration) : Decode (DecodeResult × DataDeclaration) := do
  let buf ← get
  if buf.length - buf.offset < obj.get_tail_size then return (.BUFFER_UNDERFLOW, obj)
  else
    let (dr, neutral_value) ←
      decode_bound obj.has_neutral_value obj.width.toNat .SUCCESS obj.neutral_value
    let (dr, minimum_value) ←
      decode_bound obj.has_minimum_value obj.width.toNat dr obj.minimum_value
    let (dr, maximum_value) ←
      decode_bound obj.has_maximum_value obj.width.toNat dr obj.maximum_value
    return (dr, { obj with neutral_value, minimum_value, maximum_value })

-- detail::DataDeclarationBase::decode clears the whole target before it reads.
def decode_detail : Decode (DecodeResult × DataDeclaration) := do
  match ← read HeaderSize with
  | none => return (.BUFFER_UNDERFLOW, empty)
  | some bytes => (empty.withHeader bytes).decode_tail

-- The member function drops the result of the detail function.
def decode : Decode (DecodeResult × DataDeclaration) := do
  let (_, out) ← decode_detail
  return (.SUCCESS, out)

-- operator ==. The comparison leaves out is_array and array_size_width.
def eq (obj o : DataDeclaration) : Bool :=
  obj.type = o.type && obj.width = o.width && obj.is_signed = o.is_signed &&
    obj.has_neutral_value = o.has_neutral_value &&
    (!obj.has_neutral_value ||
      obj.neutral_value.bytes.take obj.width.toNat = o.neutral_value.bytes.take obj.width.toNat) &&
    obj.has_minimum_value = o.has_minimum_value &&
    (!obj.has_minimum_value ||
      obj.minimum_value.bytes.take obj.width.toNat = o.minimum_value.bytes.take obj.width.toNat) &&
    obj.has_maximum_value = o.has_maximum_value &&
    (!obj.has_maximum_value ||
      obj.maximum_value.bytes.take obj.width.toNat = o.maximum_value.bytes.take obj.width.toNat)

-- has_value == o.has_value && ( ! has_value || !memcmp(value, o.value, width) )
def compare_bound (present o_present : Bool) (slot o_slot : Slot) (width : Nat) : Option Bool :=
  if present = o_present then
    if present then do
      let bytes ← load slot.bytes width
      let o_bytes ← load o_slot.bytes width
      return bytes = o_bytes
    else some true
  else some false

-- operator == again, without a result where a memcmp runs past the slots.
def compare (obj o : DataDeclaration) : Option Bool :=
  if obj.type = o.type ∧ obj.width = o.width ∧ obj.is_signed = o.is_signed then do
    let neutral ← compare_bound obj.has_neutral_value o.has_neutral_value obj.neutral_value
      o.neutral_value obj.width.toNat
    if neutral = false then return false
    let minimum ← compare_bound obj.has_minimum_value o.has_minimum_value obj.minimum_value
      o.minimum_value obj.width.toNat
    if minimum = false then return false
    compare_bound obj.has_maximum_value o.has_maximum_value obj.maximum_value o.maximum_value
      obj.width.toNat
  else some false

end DataDeclaration

end RoboCrisp.Comms
