import RoboCrisp.Stream.Partial
import Mathlib.Data.List.Basic

namespace RoboCrisp.Stream

-- A block of cells that is filled from front to back: the cells written so far
-- and the old ones behind them. No offset past the end can be built.
structure Sink (β : Type) where
  written : List β
  room : List β

namespace Sink

variable {β : Type}

def ofList (data : List β) : Sink β := ⟨[], data⟩

def data (sink : Sink β) : List β := sink.written ++ sink.room

def length (sink : Sink β) : Nat := sink.data.length

def offset (sink : Sink β) : Nat := sink.written.length

def free (sink : Sink β) : Nat := sink.length - sink.offset

-- Overwrite the cells behind the offset and step over them.
def append (sink : Sink β) (cells : List β) : Sink β :=
  ⟨sink.written ++ cells, sink.room.drop cells.length⟩

-- Either all cells are stored or none is.
def write (sink : Sink β) (cells : List β) : Bool × Sink β :=
  if sink.length - sink.offset < cells.length then (false, sink) else (true, sink.append cells)

theorem free_eq (sink : Sink β) : sink.free = sink.room.length := by
  simp [free, length, offset, data]

@[simp] theorem append_nil (sink : Sink β) : sink.append [] = sink := by
  simp [append]

theorem append_append (sink : Sink β) (cells more : List β) :
    (sink.append cells).append more = sink.append (cells ++ more) := by
  simp [append]

theorem free_append (sink : Sink β) (cells : List β) :
    (sink.append cells).free = sink.free - cells.length := by
  simp [free_eq, append]

theorem offset_append (sink : Sink β) (cells : List β) :
    (sink.append cells).offset = sink.offset + cells.length := by
  simp [offset, append]

theorem append_inj {sink : Sink β} {cells more : List β} :
    sink.append cells = sink.append more ↔ cells = more := by
  constructor
  · intro h
    exact List.append_cancel_left (congrArg written h)
  · rintro rfl
    rfl

end Sink

-- One write of an encoder, with whether a failure of it is reported.
structure Piece (β : Type) where
  cells : List β
  checked : Bool

section Pieces

variable {β : Type}

def wire (pieces : List (Piece β)) : List β := pieces.flatMap Piece.cells

-- What a run of writes appends when `free` cells are left, and whether it ends
-- without reporting a failure. A dropped unchecked write is skipped.
def emitted : List (Piece β) → Nat → Bool × List β
  | [], _ => (true, [])
  | piece :: rest, free =>
      if piece.cells.length ≤ free then
        let (ok, cells) := emitted rest (free - piece.cells.length)
        (ok, piece.cells ++ cells)
      else if piece.checked then (false, [])
      else emitted rest free

-- `dropped` was skipped for lack of room. The writes behind it end in a reported
-- failure, and the ones that still fit only repeat the skipped cells.
def Masked (dropped : List β) : List (Piece β) → Nat → Prop
  | [], _ => False
  | piece :: rest, free =>
      if piece.cells.length ≤ free then
        piece.cells <+: dropped ∧
          Masked (dropped.drop piece.cells.length) rest (free - piece.cells.length)
      else piece.checked = true ∨ Masked dropped rest free

-- The first write that does not fit is reported, or a later one is before
-- anything else gets in.
def Reported : List (Piece β) → Nat → Prop
  | [], _ => True
  | piece :: rest, free =>
      if piece.cells.length ≤ free then Reported rest (free - piece.cells.length)
      else piece.checked = true ∨ Masked piece.cells rest free

instance decidableMasked [DecidableEq β] :
    (dropped : List β) → (pieces : List (Piece β)) → (free : Nat) → Decidable (Masked dropped pieces free)
  | _, [], _ => .isFalse id
  | dropped, piece :: rest, free =>
      have := decidableMasked (dropped.drop piece.cells.length) rest (free - piece.cells.length)
      have := decidableMasked dropped rest free
      inferInstanceAs (Decidable (if piece.cells.length ≤ free then
        piece.cells <+: dropped ∧ Masked _ rest _ else piece.checked = true ∨ Masked dropped rest free))

instance decidableReported [DecidableEq β] :
    (pieces : List (Piece β)) → (free : Nat) → Decidable (Reported pieces free)
  | [], _ => .isTrue trivial
  | piece :: rest, free =>
      have := decidableReported rest (free - piece.cells.length)
      inferInstanceAs (Decidable (if piece.cells.length ≤ free then Reported rest _
        else piece.checked = true ∨ Masked piece.cells rest free))

-- A run of writes is truthful when it succeeds exactly if everything fits, and
-- what it leaves behind is always a prefix of the whole.
def Truthful (pieces : List (Piece β)) (free : Nat) : Prop :=
  ((emitted pieces free).1 = true ↔ (wire pieces).length ≤ free) ∧
    ((emitted pieces free).1 = true → (emitted pieces free).2 = wire pieces) ∧
    ((emitted pieces free).1 = false → (emitted pieces free).2 <+: wire pieces)

@[simp] theorem wire_nil : wire ([] : List (Piece β)) = [] := rfl

@[simp] theorem wire_cons (piece : Piece β) (rest : List (Piece β)) :
    wire (piece :: rest) = piece.cells ++ wire rest := rfl

@[simp] theorem wire_append (front back : List (Piece β)) :
    wire (front ++ back) = wire front ++ wire back := List.flatMap_append

theorem emitted_of_fits (pieces : List (Piece β)) (free : Nat) (h : (wire pieces).length ≤ free) :
    emitted pieces free = (true, wire pieces) := by
  induction pieces generalizing free with
  | nil => rfl
  | cons piece rest ih =>
      rw [wire_cons, List.length_append] at h
      rw [emitted, if_pos (by omega), ih _ (by omega)]
      rfl

theorem length_emitted_le (pieces : List (Piece β)) (free : Nat) :
    (emitted pieces free).2.length ≤ free := by
  induction pieces generalizing free with
  | nil => exact Nat.zero_le _
  | cons piece rest ih =>
      simp only [emitted]
      split
      · have h := ih (free - piece.cells.length)
        simp only [List.length_append]
        omega
      · split
        · exact Nat.zero_le _
        · exact ih free

-- After a skipped write the run is sound exactly when it ends in a report with
-- nothing but a prefix of the skipped cells behind it.
theorem masked_iff (dropped : List β) (pieces : List (Piece β)) (free : Nat) :
    Masked dropped pieces free ↔
      (emitted pieces free).1 = false ∧ (emitted pieces free).2 <+: dropped := by
  induction pieces generalizing dropped free with
  | nil => simp [Masked, emitted]
  | cons piece rest ih =>
      simp only [Masked, emitted]
      split
      · rw [ih]
        constructor
        · rintro ⟨⟨tail, rfl⟩, hfail, hpre⟩
          rw [List.drop_left] at hpre
          exact ⟨hfail, (List.prefix_append_right_inj _).mpr hpre⟩
        · rintro ⟨hfail, hpre⟩
          obtain ⟨tail, rfl⟩ := (List.prefix_append _ _).trans hpre
          rw [List.drop_left]
          exact ⟨⟨tail, rfl⟩, hfail, (List.prefix_append_right_inj _).mp hpre⟩
      · by_cases hchecked : piece.checked = true
        · simp [hchecked]
        · simp [hchecked, ih]

theorem emitted_prefix_of_lt {dropped back : List β} {pieces : List (Piece β)} {free : Nat}
    (hlong : free < dropped.length) :
    (emitted pieces free).2 <+: dropped ++ back ↔ (emitted pieces free).2 <+: dropped := by
  have hlength := length_emitted_le pieces free
  constructor
  · intro h
    exact List.prefix_of_prefix_length_le h (List.prefix_append _ _) (by omega)
  · intro h
    exact h.trans (List.prefix_append _ _)

theorem truthful_iff_reported (pieces : List (Piece β)) (free : Nat) :
    Truthful pieces free ↔ Reported pieces free := by
  induction pieces generalizing free with
  | nil => simp [Truthful, Reported, emitted]
  | cons piece rest ih =>
      by_cases hfits : piece.cells.length ≤ free
      · -- the first write fits: the rest runs on what is left
        have hlength : (piece.cells ++ wire rest).length ≤ free ↔
            (wire rest).length ≤ free - piece.cells.length := by
          rw [List.length_append]
          omega
        rw [Reported, if_pos hfits, ← ih]
        simp only [Truthful, emitted, if_pos hfits, hlength, wire_cons, List.append_cancel_left_eq,
          List.prefix_append_right_inj]
      · have hlength : ¬(piece.cells ++ wire rest).length ≤ free := by
          rw [List.length_append]
          omega
        rw [Reported, if_neg hfits]
        by_cases hchecked : piece.checked = true
        · simp only [Truthful, emitted, if_neg hfits, hchecked, wire_cons, hlength, ite_true,
            iff_false, true_or, iff_true]
          exact ⟨Bool.false_ne_true, fun h => absurd h Bool.false_ne_true, fun _ => List.nil_prefix⟩
        · -- the first write is skipped: only a masked rest can still be sound
          simp only [Truthful, emitted, if_neg hfits, hchecked, wire_cons, hlength,
            Bool.false_eq_true, ite_false, iff_false, Bool.not_eq_true, false_or, masked_iff]
          rw [emitted_prefix_of_lt (by omega)]
          constructor
          · rintro ⟨hfail, -, hpre⟩
            exact ⟨hfail, hpre hfail⟩
          · rintro ⟨hfail, hpre⟩
            exact ⟨hfail, fun h => absurd (hfail.symm.trans h) Bool.false_ne_true, fun _ => hpre⟩

-- With nothing checked, only a run that fits is sound.
theorem reported_unchecked_iff (pieces : List (Piece β)) (free : Nat)
    (h : ∀ piece ∈ pieces, piece.checked = false) :
    Reported pieces free ↔ (wire pieces).length ≤ free := by
  have hsuccess : ∀ free, (emitted pieces free).1 = true := by
    induction pieces with
    | nil => exact fun _ => rfl
    | cons piece rest ih =>
        intro free
        have hrest := ih (fun piece hp => h piece (List.mem_cons_of_mem _ hp))
        simp only [emitted, h piece (by simp), Bool.false_eq_true, ite_false]
        split
        · exact hrest _
        · exact hrest _
  rw [← truthful_iff_reported]
  constructor
  · intro ht
    exact ht.1.mp (hsuccess free)
  · intro hfits
    simp [Truthful, emitted_of_fits pieces free hfits, hfits]

end Pieces

-- A writer that threads a sink through and may fail for good (`none`).
abbrev Encoder (β R : Type) := StateT (Sink β) Option R

namespace Encoder

variable {β R : Type} {ok fail : R}

def write (ok fail : R) (cells : List β) : Encoder β R := fun sink =>
  let (stored, sink) := sink.write cells
  some (if stored then ok else fail, sink)

-- The encoder is the run of writes `pieces`, whatever sink it starts from.
def Emits (ok fail : R) (encoder : Encoder β R) (pieces : List (Piece β)) : Prop :=
  ∀ sink, encoder sink = some (if (emitted pieces sink.free).1 then ok else fail,
    sink.append (emitted pieces sink.free).2)

theorem Emits.pure : Emits (β := β) ok fail (Pure.pure ok) [] := by
  intro sink
  simp [emitted, pure_apply]

theorem Emits.write (cells : List β) :
    Emits ok fail (write ok fail cells) [⟨cells, true⟩] := by
  intro sink
  by_cases h : cells.length ≤ sink.free
  · have hlt : ¬sink.length - sink.offset < cells.length := by unfold Sink.free at h; omega
    simp [Encoder.write, Sink.write, emitted, h, hlt]
  · have hlt : sink.length - sink.offset < cells.length := by unfold Sink.free at h; omega
    simp [Encoder.write, Sink.write, emitted, h, hlt]

-- The result of the write is thrown away.
theorem Emits.write_ignored {encoder : Encoder β R} {pieces : List (Piece β)} (cells : List β)
    (h : Emits ok fail encoder pieces) :
    Emits ok fail (Encoder.write ok fail cells >>= fun _ => encoder)
      (⟨cells, false⟩ :: pieces) := by
  intro sink
  rw [bind_apply]
  by_cases hfits : cells.length ≤ sink.free
  · have hlt : ¬sink.length - sink.offset < cells.length := by unfold Sink.free at hfits; omega
    simp [Encoder.write, Sink.write, emitted, hfits, hlt, h (sink.append cells), Sink.free_append,
      Sink.append_append]
  · have hlt : sink.length - sink.offset < cells.length := by unfold Sink.free at hfits; omega
    simp [Encoder.write, Sink.write, emitted, hfits, hlt, h sink]

theorem emitted_append (front back : List (Piece β)) (free : Nat) :
    emitted (front ++ back) free =
      if (emitted front free).1 then
        ((emitted back (free - (emitted front free).2.length)).1,
          (emitted front free).2 ++ (emitted back (free - (emitted front free).2.length)).2)
      else emitted front free := by
  induction front generalizing free with
  | nil => simp [emitted]
  | cons piece front ih =>
      simp only [List.cons_append, emitted]
      split
      · rw [ih]
        simp only [List.length_append, ← Nat.sub_sub]
        split <;> simp_all
      · split
        · simp
        · exact ih free

-- The first encoder's failure is returned at once.
theorem Emits.seq [DecidableEq R] {first second : Encoder β R} {front back : List (Piece β)}
    (hne : ok ≠ fail) (hfirst : Emits ok fail first front) (hsecond : Emits ok fail second back) :
    Emits ok fail (first >>= fun r => if r ≠ ok then Pure.pure r else second) (front ++ back) := by
  intro sink
  rw [bind_apply, hfirst sink, emitted_append]
  by_cases h : (emitted front sink.free).1 = true
  · simp [h, hsecond (sink.append _), Sink.free_append, Sink.append_append]
  · simp [h, Ne.symm hne, pure_apply]

-- With room for all of `cells` the encoder appends them and returns `result`.
def Stores (encoder : Encoder β R) (cells : List β) (result : R) : Prop :=
  ∀ sink, cells.length ≤ sink.free → encoder sink = some (result, sink.append cells)

theorem Emits.stores {encoder : Encoder β R} {pieces : List (Piece β)}
    (h : Emits ok fail encoder pieces) : Stores encoder (wire pieces) ok := by
  intro sink hfits
  rw [h sink, emitted_of_fits _ _ hfits]
  rfl

-- What an encoder stores does not depend on the block.
theorem Stores.unique {encoder : Encoder β R} {cells more : List β} {result result' : R}
    (h : Stores encoder cells result) (h' : Stores encoder more result') : cells = more := by
  let sink := Sink.ofList (cells ++ more)
  have hfree : sink.free = cells.length + more.length := by
    rw [Sink.free_eq]
    exact List.length_append
  have hsame := (h sink (by omega)).symm.trans (h' sink (by omega))
  exact Sink.append_inj.mp (Prod.mk.inj (Option.some.inj hsame)).2

theorem Stores.pure (result : R) : Stores (β := β) (Pure.pure result) [] result := by
  intro sink _
  rw [Sink.append_nil]
  rfl

theorem Stores.write (cells : List β) : Stores (Encoder.write ok fail cells) cells ok := by
  have h : Emits ok fail (Encoder.write ok fail cells) [⟨cells, true⟩] := Emits.write cells
  simpa using h.stores

theorem Stores.bind {first : Encoder β R} {next : R → Encoder β R} {front back : List β}
    {middle result : R} (hfirst : Stores first front middle)
    (hnext : Stores (next middle) back result) :
    Stores (first >>= next) (front ++ back) result := by
  intro sink h
  rw [List.length_append] at h
  rw [bind_apply, hfirst sink (by omega), Option.bind_some,
    hnext _ (by rw [Sink.free_append]; omega), Sink.append_append]

-- The result of the first step is thrown away.
theorem Stores.dropped {first second : Encoder β R} {front back : List β} {middle result : R}
    (hfirst : Stores first front middle) (hsecond : Stores second back result) :
    Stores (first >>= fun _ => second) (front ++ back) result :=
  hfirst.bind hsecond

theorem Stores.lift_bind {α : Type} {value : Option α} {a : α} {next : α → Encoder β R}
    {cells : List β} {result : R} (h : value = some a) (hnext : Stores (next a) cells result) :
    Stores (StateT.lift value >>= next) cells result := by
  subst h
  exact hnext

-- An encoder that never takes back what has been written.
def Appends (encoder : Encoder β R) : Prop :=
  ∀ sink result last, encoder sink = some (result, last) → sink.written <+: last.written

theorem Appends.pure (result : R) : Appends (β := β) (Pure.pure result) := by
  intro sink result last h
  obtain ⟨-, rfl⟩ := Prod.mk.inj (pure_eq_some_iff.mp h)
  exact List.prefix_rfl

theorem Appends.write (cells : List β) : Appends (Encoder.write ok fail cells) := by
  intro sink result last h
  rw [Encoder.write] at h
  by_cases hfull : sink.length - sink.offset < cells.length
  · rw [Sink.write, if_pos hfull] at h
    obtain ⟨-, rfl⟩ := Prod.mk.inj (Option.some.inj h)
    exact List.prefix_rfl
  · rw [Sink.write, if_neg hfull] at h
    obtain ⟨-, rfl⟩ := Prod.mk.inj (Option.some.inj h)
    exact List.prefix_append _ _

theorem Appends.bind {first : Encoder β R} {next : R → Encoder β R} (hfirst : Appends first)
    (hnext : ∀ result, Appends (next result)) : Appends (first >>= next) := by
  intro sink result last h
  obtain ⟨value, middle, hmiddle, hlast⟩ := bind_eq_some_iff.mp h
  exact (hfirst _ _ _ hmiddle).trans (hnext value _ _ _ hlast)

theorem Appends.lift_bind {α : Type} {value : Option α} {next : α → Encoder β R}
    (hnext : ∀ a, Appends (next a)) : Appends (StateT.lift value >>= next) := by
  intro sink result last h
  obtain ⟨a, middle, hmiddle, hlast⟩ := bind_eq_some_iff.mp h
  obtain ⟨-, rfl⟩ := lift_eq_some_iff.mp hmiddle
  exact hnext a _ _ _ hlast

-- What is written first, with room for it, stays in front of the rest.
theorem Appends.after_write {cells : List β} {next : R → Encoder β R} {sink last : Sink β} {result : R}
    (hnext : ∀ result, Appends (next result)) (hfits : cells.length ≤ sink.free)
    (h : (Encoder.write ok fail cells >>= next) sink = some (result, last)) :
    sink.written ++ cells <+: last.written := by
  have hstored : Stores (Encoder.write ok fail cells) cells ok := Stores.write cells
  rw [bind_apply, hstored sink hfits] at h
  exact hnext ok _ _ _ h

-- An encoder that refuses to start without room for everything is a single write.
theorem Emits.of_guard {encoder : Encoder β R} {cells : List β} {size : Nat}
    (h : Stores encoder cells ok) (hsize : cells.length = size) :
    Emits ok fail (MonadState.get >>= fun sink =>
      if sink.length - sink.offset < size then Pure.pure fail else encoder) [⟨cells, true⟩] := by
  intro sink
  change (if sink.length - sink.offset < size then Pure.pure fail else encoder) sink = _
  by_cases hfits : cells.length ≤ sink.free
  · rw [if_neg (by unfold Sink.free at hfits; omega), h sink hfits]
    simp [emitted, hfits]
  · rw [if_pos (by unfold Sink.free at hfits; omega)]
    simp [emitted, hfits, pure_apply]

end Encoder

end RoboCrisp.Stream
