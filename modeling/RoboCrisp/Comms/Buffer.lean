import RoboCrisp.Stream.Cursor
import RoboCrisp.Stream.Sink
import RoboCrisp.Util.Memory

namespace RoboCrisp.Comms

open RoboCrisp.Stream RoboCrisp.Util

inductive DecodeResult
  | SUCCESS
  | BUFFER_UNDERFLOW
  | INVALID_DATA
deriving DecidableEq

inductive EncodeResult
  | SUCCESS
  | INSUFFICIENT_SPACE
  | CONSISTENCY_ERROR
  | STREAM_ERROR
deriving DecidableEq

abbrev MemoryEncodeBuffer := Sink UInt8

abbrev DecodeBuffer := Cursor UInt8

-- A method that writes to a MemoryEncodeBuffer. It has no result when an assertion
-- fails or memory outside an object is touched.
abbrev Encode := Encoder UInt8 EncodeResult

abbrev Decode (α : Type) := Decoder UInt8 α

-- MemoryEncodeBuffer::write
def write (bytes : Bytes) : Encode := Encoder.write .SUCCESS .INSUFFICIENT_SPACE bytes

-- if ( (r = first) != EncodeResult::SUCCESS ) return r; else second
def Encode.andThen (first second : Encode) : Encode := do
  let r ← first
  if r ≠ .SUCCESS then return r else second

-- if ( name_length && name ) buf.write(name, name_length);
def writeName (name : Option Bytes) (name_length : UInt8) : Encode :=
  match name with
  | none => pure .SUCCESS
  | some block =>
      if name_length ≠ 0 then do
        let bytes ← StateT.lift (load block name_length.toNat)
        write bytes
      else pure .SUCCESS

-- DecodeBuffer::read. Without enough bytes nothing is copied to the destination.
def read (size : Nat) : Decode (Option Bytes) := Decoder.read size

-- The pieces of a run of writes, and what the run leaves in a buffer with room for all.
abbrev Emits : Encode → List (Piece UInt8) → Prop :=
  Encoder.Emits EncodeResult.SUCCESS EncodeResult.INSUFFICIENT_SPACE

abbrev Stores (encode : Encode) (bytes : Bytes) : Prop := Encoder.Stores encode bytes .SUCCESS

-- `name` and `name_length` spell the name `chars`. A pointer is only followed when
-- the name is not empty.
def NameIs (name : Option Bytes) (name_length : UInt8) (chars : Bytes) : Prop :=
  name_length.toNat = chars.length ∧ (chars ≠ [] → ∃ block, name = some block ∧ chars <+: block)

theorem write_nil : write [] = pure .SUCCESS := by
  funext sink
  simp [write, Encoder.write, Sink.write, pure_apply]

theorem NameIs.writeName_eq {name : Option Bytes} {name_length : UInt8} {chars : Bytes}
    (h : NameIs name name_length chars) : writeName name name_length = write chars := by
  obtain ⟨hlength, hblock⟩ := h
  by_cases hchars : chars = []
  · subst hchars
    have hzero : name_length = 0 := UInt8.toNat_inj.mp hlength
    rw [write_nil]
    cases name <;> simp [writeName, hzero]
  · obtain ⟨block, rfl, hpre⟩ := hblock hchars
    have hne : name_length ≠ 0 := by
      rintro rfl
      exact hchars (List.length_eq_zero_iff.mp hlength.symm)
    simp only [writeName, if_pos hne, hlength, load_of_prefix hpre]
    rfl

theorem Emits.andThen {first second : Encode} {front back : List (Piece UInt8)}
    (hfirst : Emits first front) (hsecond : Emits second back) :
    Emits (first.andThen second) (front ++ back) :=
  Encoder.Emits.seq (by decide) hfirst hsecond

end RoboCrisp.Comms
