import RoboCrisp.Comms.Configuration.Build
import RoboCrisp.Comms.Message.Frame
import RoboCrisp.Comms.ModuleControl.Transcoding

namespace RoboCrisp.Comms

open RoboCrisp.Stream RoboCrisp.Util

-- What is encoded in several writes.
inductive Composite
  | module (m : Module)
  | configuration (c : Configuration)
  | control (mc : ModuleControl)
  | message (m : Message)

namespace Composite

def get_encoded_size : Composite → Option Nat
  | .module m => m.get_encoded_size
  | .configuration c => c.get_encoded_size
  | .control mc => mc.get_encoded_size
  | .message m => m.get_encoded_size

def encode : Composite → Encode
  | .module m => m.encode
  | .configuration c => c.encode
  | .control mc => mc.encode
  | .message m => m.encode

-- The bytes that the value announces, and appends wherever they have room.
def Encodes (x : Composite) (bytes : Bytes) : Prop :=
  x.get_encoded_size = some bytes.length ∧
    ∀ buf : MemoryEncodeBuffer, bytes.length ≤ buf.free →
      x.encode buf = some (.SUCCESS, buf.append bytes)

-- Success means that all of the encoding is there, and failure that it had no room; what a
-- failure leaves behind is a prefix.
def Honest (x : Composite) (buf : MemoryEncodeBuffer) : Prop :=
  ∃ bytes r buf', x.Encodes bytes ∧ x.encode buf = some (r, buf') ∧
    (r = .SUCCESS ↔ bytes.length ≤ buf.free) ∧ (r = .SUCCESS → buf' = buf.append bytes) ∧
    (r ≠ .SUCCESS → r = .INSUFFICIENT_SPACE ∧ ∃ front, front <+: bytes ∧ buf' = buf.append front)

-- A well-formed value, with the writes that its encode makes and whether it looks at their
-- results.
inductive Writes : Composite → List (Piece UInt8) → Prop
  | module {m : Module} {s : ModuleContents} : m.Represents s →
      Writes (.module m) (Module.pieces s)
  | configuration {c : Configuration} {s : ConfigurationContents} : c.Represents s →
      Writes (.configuration c) (Configuration.pieces s)
  | control {mc : ModuleControl} {pairs : List ValuePair} :
      mc.Carries ValuePair.Loadable pairs → Writes (.control mc) (mc.pieces pairs)
  | message {m : Message} {f : Frame} : m.Represents f → Writes (.message m) f.pieces

variable {x : Composite} {pieces : List (Piece UInt8)}

theorem Writes.emits (h : x.Writes pieces) : Emits x.encode pieces := by
  cases h with
  | module h => exact h.shows.emits
  | configuration h => exact h.shows.emits
  | control h => exact h.emits h.2.2
  | message h => exact h.emits

theorem Writes.get_encoded_size_eq (h : x.Writes pieces) :
    x.get_encoded_size = some (wire pieces).length := by
  cases h with
  | module h => rw [Module.wire_pieces]; exact h.shows.get_encoded_size_eq
  | configuration h => rw [Configuration.wire_pieces]; exact h.get_encoded_size_eq
  | control h => rw [ModuleControl.wire_pieces]; exact h.get_encoded_size_eq h.2.2
  | message h => rw [Frame.wire_pieces]; exact h.get_encoded_size_eq

theorem Writes.encodes (h : x.Writes pieces) : x.Encodes (wire pieces) :=
  ⟨h.get_encoded_size_eq, h.emits.stores⟩

theorem Encodes.unique {bytes bytes' : Bytes} (h : x.Encodes bytes) (h' : x.Encodes bytes') :
    bytes = bytes' :=
  Encoder.Stores.unique h.2 h'.2

-- The outcome is the one of the run of writes.
theorem Writes.honest_iff_truthful (h : x.Writes pieces) (buf : MemoryEncodeBuffer) :
    x.Honest buf ↔ Truthful pieces buf.free := by
  have hrun := h.emits buf
  constructor
  · rintro ⟨bytes, r, buf', hbytes, hencode, hroom, hsuccess, hfailure⟩
    obtain rfl := hbytes.unique h.encodes
    obtain ⟨rfl, rfl⟩ := Prod.mk.inj (Option.some.inj (hencode.symm.trans hrun))
    cases hok : (emitted pieces buf.free).1 with
    | true =>
        simp only [hok, ite_true, true_iff, forall_const] at hroom hsuccess
        exact ⟨by simp only [hok, hroom], fun _ => Sink.append_inj.mp hsuccess,
          fun hno => absurd (hok.symm.trans hno) (by decide)⟩
    | false =>
        simp only [hok, Bool.false_eq_true, ite_false, reduceCtorEq, false_iff] at hroom
        simp only [hok, Bool.false_eq_true, ite_false] at hfailure
        obtain ⟨-, front, hfront, happend⟩ := hfailure (by decide)
        refine ⟨by simp only [hok, Bool.false_eq_true, hroom], fun hyes => ?_, fun _ => ?_⟩
        · exact absurd (hok.symm.trans hyes) (by decide)
        · rw [Sink.append_inj.mp happend]
          exact hfront
  · rintro ⟨hroom, hsuccess, hfailure⟩
    refine ⟨_, _, _, h.encodes, hrun, ?_, ?_, ?_⟩
    · rw [← hroom]
      cases (emitted pieces buf.free).1 <;> simp
    · intro hr
      cases hok : (emitted pieces buf.free).1 with
      | true => rw [hsuccess hok]
      | false =>
          rw [hok] at hr
          exact absurd hr (by decide)
    · intro hr
      cases hok : (emitted pieces buf.free).1 with
      | true =>
          rw [hok] at hr
          exact absurd rfl hr
      | false => exact ⟨by simp, _, hfailure hok, rfl⟩

-- With one dropped result that no later one makes up for, the outcome is wrong.
theorem Writes.honest_iff (h : x.Writes pieces) (buf : MemoryEncodeBuffer) :
    x.Honest buf ↔ Reported pieces buf.free := by
  rw [h.honest_iff_truthful buf]
  exact truthful_iff_reported pieces buf.free

-- The encode of a message looks at none of the results.
theorem message_honest_iff {m : Message} {f : Frame} (h : m.Represents f) (buf : MemoryEncodeBuffer) :
    (Composite.message m).Honest buf ↔ f.wire.length ≤ buf.free := by
  rw [(Writes.message h).honest_iff_truthful buf, truthful_iff_reported,
    reported_unchecked_iff _ _ f.unchecked, Frame.wire_pieces]

theorem writes_empty : (Composite.module .empty).Writes
    (Module.pieces ⟨0, [], by decide, [], by decide, [], by decide⟩) :=
  .module ⟨rfl, ⟨rfl, fun h => absurd rfl h⟩, rfl, ⟨[], SArray.holds_empty, .nil⟩, rfl,
    ⟨[], SArray.holds_empty, .nil⟩⟩

-- "left motor amplifier" has an input "on" and a sensor "rpm".
def amplifierContents : ModuleContents where
  id := 1
  name := [108, 101, 102, 116, 32, 109, 111, 116, 111, 114, 32, 97, 109, 112, 108, 105, 102, 105, 101, 114]
  name_length_lt := by decide
  inputs := [⟨⟨[111, 110], by decide, ⟨1, 1, false, true, 0, none, none, none⟩⟩, 0⟩]
  num_inputs_lt := by decide
  sensors := [⟨⟨[114, 112, 109], by decide, ⟨1, 2, false, true, 0, none, none, none⟩⟩, 0, 3, 1⟩]
  num_sensors_lt := by decide

def amplifierInput : ModuleInput :=
  .declare (some ⟨[111, 110], by decide⟩) 0
    { DataDeclaration.empty with type := 1, width := 1, is_signed := true } false

def amplifierSensor : Sensor :=
  .declare ⟨[114, 112, 109], by decide⟩ .ROTARY_ENCODER
    { DataDeclaration.empty with type := 1, width := 2, is_signed := true } .ASYNC

def amplifier : Module :=
  { Module.declare (some ⟨amplifierContents.name, by decide⟩) 1 1 with
    id := 1
    num_inputs := 1
    num_sensors := 1
    inputs := ⟨some [some amplifierInput], 1, 1⟩
    sensors := ⟨some [some amplifierSensor], 1, 1⟩ }

theorem amplifier_represents : amplifier.Represents amplifierContents := by
  refine ⟨rfl, ⟨by decide, fun _ => ⟨_, rfl, by decide⟩⟩, rfl, ⟨[amplifierInput], ?_, ?_⟩, rfl,
    ⟨[amplifierSensor], ?_, ?_⟩⟩
  · exact ⟨rfl, .inr ⟨0, rfl, rfl⟩⟩
  · refine .cons ⟨⟨?_, ⟨rfl, fun _ => ⟨_, rfl, by decide⟩⟩⟩, rfl⟩ .nil
    exact ⟨rfl, rfl, rfl, rfl, rfl, ⟨rfl, nofun⟩, ⟨rfl, nofun⟩, ⟨rfl, nofun⟩⟩
  · exact ⟨rfl, .inr ⟨0, rfl, rfl⟩⟩
  · refine .cons ⟨⟨?_, ⟨rfl, fun _ => ⟨_, rfl, by decide⟩⟩⟩, rfl, rfl, rfl⟩ .nil
    exact ⟨rfl, rfl, rfl, rfl, rfl, ⟨rfl, nofun⟩, ⟨rfl, nofun⟩, ⟨rfl, nofun⟩⟩

-- Where the name has no room but its input and its sensor do, they come right behind the header.
theorem amplifier_honest :
    (Composite.module amplifier).Honest (MemoryEncodeBuffer.alloc 40) ∧
      ¬(Composite.module amplifier).Honest (MemoryEncodeBuffer.alloc 20) := by
  have hwrites : (Composite.module amplifier).Writes (Module.pieces amplifierContents) :=
    .module amplifier_represents
  constructor
  · refine (hwrites.honest_iff _).mpr ?_
    decide
  · intro h
    have hreported := (hwrites.honest_iff _).mp h
    exact absurd hreported (by decide)

-- A module without inputs and sensors succeeds in a buffer without any room.
theorem empty_not_honest :
    ¬∀ (x : Composite) (pieces : List (Piece UInt8)) (buf : MemoryEncodeBuffer),
      x.Writes pieces → x.Honest buf := by
  intro h
  obtain ⟨bytes, r, buf', hbytes, hencode, hroom, -, -⟩ := h _ _ (MemoryEncodeBuffer.alloc 0) writes_empty
  obtain rfl : r = .SUCCESS := (Prod.mk.inj (Option.some.inj hencode)).1.symm
  have hlength : 4 = bytes.length := Option.some.inj hbytes.1
  have hle : bytes.length ≤ 0 := hroom.mp rfl
  omega

end Composite

end RoboCrisp.Comms
