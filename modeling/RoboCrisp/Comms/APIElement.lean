import RoboCrisp.Comms.Buffer

namespace RoboCrisp.Comms

open RoboCrisp.Stream RoboCrisp.Util

-- buf.read<uint8_t>(). A read that comes up short leaves the byte as it happens to be.
def readByte : Decode UInt8 := do
  match ← read 1 with
  | some [byte] => return byte
  | _ => StateT.lift none

def ELEMENT_SYMBOL : UInt8 := 1

def ELEMENT_USE : UInt8 := 2

def ELEMENT_DESCRIPTION : UInt8 := 4

-- _string ? strlen(_string) : 0
def lengthOf : Option CString → Nat
  | none => 0
  | some string => strlen string

-- memcpy of that many characters, which touches nothing when there are none.
def copyString (block : Bytes) (sbuf : Nat) : Option CString → Option Bytes
  | none => some block
  | some string => if strlen string = 0 then some block else store block sbuf string.chars

-- One string of an element: what is in memory from the pointer on, and the length kept
-- beside the pointer.
structure APIString where
  pointer : Option Bytes
  length : Nat
deriving DecidableEq

-- length ? length + 1 : 0
def APIString.size (string : APIString) : Nat :=
  if string.length ≠ 0 then string.length + 1 else 0

structure APIElement where
  symbol : APIString
  use : APIString
  description : APIString
  owns_api_strings : Bool
deriving DecidableEq

namespace APIElement

def empty : APIElement := ⟨⟨none, 0⟩, ⟨none, 0⟩, ⟨none, 0⟩, false⟩

-- The constructor with `copy` left at false. The pointers are kept as they are.
def refer (symbol use description : Option CString) : APIElement where
  symbol := ⟨symbol.map CString.block, lengthOf symbol⟩
  use := ⟨use.map CString.block, lengthOf use⟩
  description := ⟨description.map CString.block, lengthOf description⟩
  owns_api_strings := false

-- The constructor with `copy`. All three strings go into one block, and each string is
-- followed by a byte there even when the block has none set aside for it.
def copied (symbol use description : Option CString) : Option APIElement :=
  let symbol_length := lengthOf symbol
  let use_length := lengthOf use
  let description_length := lengthOf description
  if symbol_length + use_length + description_length > 0 then do
    let alloc_size := (if symbol_length ≠ 0 then symbol_length + 1 else 0) +
      (if use_length ≠ 0 then use_length + 1 else 0) +
      (if description_length ≠ 0 then description_length + 1 else 0)
    let block := List.replicate alloc_size 0
    let block ← copyString block 0 symbol
    let block ← copyString block (symbol_length + 1) use
    let block ← copyString block (symbol_length + 1 + (use_length + 1)) description
    return {
      symbol := ⟨some block, symbol_length⟩
      use := ⟨some (block.drop (symbol_length + 1)), use_length⟩
      description :=
        ⟨some (block.drop (symbol_length + 1 + (use_length + 1))), description_length⟩
      owns_api_strings := true }
  else some empty

-- symbol == nullptr || ae.symbol == nullptr ? symbol == ae.symbol : ! strcmp(symbol, ae.symbol)
def sameString : Option Bytes → Option Bytes → Option Bool
  | none, none => some true
  | some string, some other => strcmp string other
  | _, _ => some false

-- operator ==
def eq (obj ae : APIElement) : Option Bool := do
  let symbol ← sameString obj.symbol.pointer ae.symbol.pointer
  if symbol = false then return false
  let use ← sameString obj.use.pointer ae.use.pointer
  if use = false then return false
  sameString obj.description.pointer ae.description.pointer

def get_encoded_size (obj : APIElement) : Nat :=
  1 + obj.symbol.size + obj.use.size + obj.description.size

-- The strings whose pointers are not null.
def mask (obj : APIElement) : UInt8 :=
  (if obj.symbol.pointer.isSome then ELEMENT_SYMBOL else 0) |||
    (if obj.use.pointer.isSome then ELEMENT_USE else 0) |||
    (if obj.description.pointer.isSome then ELEMENT_DESCRIPTION else 0)

-- if ( mask & flag ) buf.write<uint8_t>(length);
def encode_length (mask flag : UInt8) (string : APIString) : Encode :=
  if mask &&& flag ≠ 0 then write [UInt8.ofNat string.length] else pure .SUCCESS

-- if ( mask & flag ) buf.write(pointer, length);
def encode_chars (mask flag : UInt8) (string : APIString) : Encode :=
  if mask &&& flag ≠ 0 then do
    let block ← StateT.lift string.pointer
    let bytes ← StateT.lift (load block string.length)
    write bytes
  else pure .SUCCESS

-- The results of the writes are dropped.
def encode (obj : APIElement) : Encode :=
  if obj.symbol.pointer = none ∧ obj.use.pointer = none ∧ obj.description.pointer = none then do
    let _ ← write [0]
    return .SUCCESS
  else do
    let _ ← write [obj.mask]
    let _ ← encode_length obj.mask ELEMENT_SYMBOL obj.symbol
    let _ ← encode_length obj.mask ELEMENT_USE obj.use
    let _ ← encode_length obj.mask ELEMENT_DESCRIPTION obj.description
    let _ ← encode_chars obj.mask ELEMENT_SYMBOL obj.symbol
    let _ ← encode_chars obj.mask ELEMENT_USE obj.use
    let _ ← encode_chars obj.mask ELEMENT_DESCRIPTION obj.description
    return .SUCCESS

-- uint8_t mask ( 0 );  buf.read(&mask, sizeof(mask));
def decode_mask : Decode UInt8 := do
  match ← read 1 with
  | some [mask] => return mask
  | _ => return 0

-- if ( mask & flag ) length = buf.read<uint8_t>();
def decode_length (mask flag : UInt8) : Decode Nat :=
  if mask &&& flag ≠ 0 then do
    let length ← readByte
    return length.toNat
  else return 0

-- The block that the strings are read into, and how much of it has been handed out.
structure StringBlock where
  bytes : Bytes
  sbuf : Nat

-- if ( length ) { pointer = sbuf; if ( (r = buf.read(sbuf, length)) != SUCCESS ) return r; ... }
-- The pointer is given by its place in the block.
def decode_chars (r : DecodeResult) (block : StringBlock) (length : Nat) :
    Decode (DecodeResult × StringBlock × Option Nat) :=
  if r = .SUCCESS ∧ length ≠ 0 then do
    match ← read length with
    | none => return (.BUFFER_UNDERFLOW, block, some block.sbuf)
    | some chars =>
        let bytes ← StateT.lift (store block.bytes block.sbuf chars)
        return (.SUCCESS, ⟨bytes, block.sbuf + (length + 1)⟩, some block.sbuf)
  else return (r, block, none)

def decode_strings (symbol_length use_length description_length : Nat) :
    Decode (DecodeResult × APIElement) := do
  let alloc_size := (if symbol_length ≠ 0 then symbol_length + 1 else 0) +
    (if use_length ≠ 0 then use_length + 1 else 0) +
    (if description_length ≠ 0 then description_length + 1 else 0)
  let block : StringBlock := ⟨List.replicate alloc_size 0, 0⟩
  let (r, block, symbol) ← decode_chars .SUCCESS block symbol_length
  let (r, block, use) ← decode_chars r block use_length
  let (r, block, description) ← decode_chars r block description_length
  return (r, {
    symbol := ⟨symbol.map block.bytes.drop, symbol_length⟩
    use := ⟨use.map block.bytes.drop, use_length⟩
    description := ⟨description.map block.bytes.drop, description_length⟩
    owns_api_strings := alloc_size ≠ 0 })

-- The target is reset before anything is read.
def decode : Decode (DecodeResult × APIElement) := do
  let mask ← decode_mask
  let symbol_length ← decode_length mask ELEMENT_SYMBOL
  let use_length ← decode_length mask ELEMENT_USE
  let description_length ← decode_length mask ELEMENT_DESCRIPTION
  decode_strings symbol_length use_length description_length

end APIElement

end RoboCrisp.Comms
