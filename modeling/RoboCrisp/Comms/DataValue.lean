import RoboCrisp.Comms.DataDeclaration

namespace RoboCrisp.Comms

open RoboCrisp.Stream RoboCrisp.Util

-- DataValue<> with the block behind its pointer, which is never null in a value pair.
structure DataValue where
  data_type : DataDeclaration
  value : Bytes
deriving DecidableEq

namespace DataValue

-- DataValue(DataDeclaration<>&& type)
def ofType (data_type : DataDeclaration) : DataValue where
  data_type := data_type
  value := List.replicate data_type.width.toNat 0

-- size_t count = 1; if ( data_type.is_array ) buf.read(&count, data_type.width);
-- Where the bytes are there, more than the eight of a size_t run past the end of count.
def decode_count (data_type : DataDeclaration) : Decode Nat :=
  if data_type.is_array then do
    match ← read data_type.width.toNat with
    | none => return 1
    | some bytes =>
        if data_type.width.toNat ≤ 8 then
          return ofLittleEndian (bytes ++ (littleEndian 8 1).drop bytes.length)
        else StateT.lift none
  else return 1

-- The decode constructor. An allocation of any size succeeds.
def decode [Heap] (data_type : DataDeclaration) : Decode DataValue := do
  let count ← decode_count data_type
  let size := count * data_type.width.toNat % 2 ^ 64
  let buf ← get
  if data_type.width.toNat ≤ buf.length - buf.offset then
    match ← read size with
    | none => return ⟨data_type, Heap.alloc size⟩
    | some bytes => return ⟨data_type, bytes⟩
  else return ⟨data_type, List.replicate size 0⟩

-- The store of a value that takes `bytes.length` bytes.
def set (dv : DataValue) (bytes : Bytes) : Option DataValue :=
  if bytes.length ≤ dv.value.length then
    some { dv with value := bytes ++ dv.value.drop bytes.length }
  else none

-- The load of a value that takes `size` bytes.
def get (dv : DataValue) (size : Nat) : Option Bytes := load dv.value size

def get_encoded_size (dv : DataValue) : Nat := dv.data_type.width.toNat

def encode (dv : DataValue) : Encode := do
  let bytes ← StateT.lift (load dv.value dv.data_type.width.toNat)
  write bytes

-- operator ==
def eq (dv v : DataValue) : Option Bool :=
  if dv.data_type.eq v.data_type then do
    let first ← load dv.value dv.data_type.width.toNat
    let second ← load v.value dv.data_type.width.toNat
    return first = second
  else some false

end DataValue

end RoboCrisp.Comms
