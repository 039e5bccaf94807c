import RoboCrisp.Comms.DataValue

namespace RoboCrisp.Comms.DataValue

open RoboCrisp.Stream RoboCrisp.Util

-- How far the decode constructor moves the cursor. The bytes that it goes by are those of the
-- count and those of the elements, which it checks for one element and reads for all of them.

-- The size of the array that is allocated for the elements.
def elementsSize (data_type : DataDeclaration) (count : Nat) : Nat :=
  count * data_type.width.toNat % 2 ^ 64

-- The bytes that are read into it, of those that are left.
def elementsRead (data_type : DataDeclaration) (count room : Nat) : Nat :=
  if data_type.width.toNat ≤ room ∧ elementsSize data_type count ≤ room then
    elementsSize data_type count
  else 0

-- The bytes of the count and of the elements, unless the count is read past the end of a size_t.
def span (data_type : DataDeclaration) (rest : Bytes) : Option (Nat × Nat) :=
  if data_type.is_array then
    if rest.length < data_type.width.toNat then some (0, 0)
    else if data_type.width.toNat ≤ 8 then
      let count := ofLittleEndian
        (rest.take data_type.width.toNat ++ (littleEndian 8 1).drop data_type.width.toNat)
      some (data_type.width.toNat, elementsRead data_type count (rest.length - data_type.width.toNat))
    else none
  else some (0, elementsRead data_type 1 rest.length)

-- The bytes that values of these types take one after the other.
def spans : List DataDeclaration → Bytes → Option Nat
  | [], _ => some 0
  | data_type :: types, rest => do
      let (lead, size) ← span data_type rest
      let more ← spans types (rest.drop (lead + size))
      return lead + size + more

variable {data_type : DataDeclaration} {buf middle : DecodeBuffer}

theorem decode_of_count [Heap] {count : Nat} (h : decode_count data_type buf = some (count, middle)) :
    decode data_type buf = some (⟨data_type,
      if data_type.width.toNat ≤ middle.rest.length then
        if elementsSize data_type count ≤ middle.rest.length then
          middle.rest.take (elementsSize data_type count)
        else Heap.alloc (elementsSize data_type count)
      else List.replicate (elementsSize data_type count) 0⟩,
      middle.advance (elementsRead data_type count middle.rest.length)) := by
  rw [decode, bind_apply, h, Option.bind_some, get_bind_apply, Cursor.length_sub_offset,
    elementsRead, elementsSize]
  by_cases hroom : data_type.width.toNat ≤ middle.rest.length
  · rw [if_pos hroom, if_pos hroom, bind_apply]
    show (some (middle.read _)).bind _ = _
    rw [Cursor.read, Cursor.length_sub_offset]
    by_cases hsize : count * data_type.width.toNat % 2 ^ 64 ≤ middle.rest.length
    · rw [if_neg (Nat.not_lt.mpr hsize), if_pos hsize, if_pos ⟨hroom, hsize⟩]
      rfl
    · rw [if_pos (Nat.lt_of_not_le hsize), if_neg hsize, if_neg fun h => hsize h.2,
        Cursor.advance_zero]
      rfl
  · rw [if_neg hroom, if_neg hroom, if_neg fun h => hroom h.1, Cursor.advance_zero]
    rfl

-- The cursor stands behind the count, which has been read or was left at 1.
theorem decode_count_of_span {lead size : Nat} (h : span data_type buf.rest = some (lead, size)) :
    ∃ count, decode_count data_type buf = some (count, buf.advance lead) ∧
      lead ≤ buf.rest.length ∧
      size = elementsRead data_type count (buf.rest.length - lead) := by
  rw [span] at h
  rw [decode_count]
  by_cases harray : data_type.is_array = true
  · rw [if_pos harray] at h ⊢
    rw [bind_apply]
    show ∃ count, (some (buf.read data_type.width.toNat)).bind _ = some (count, _) ∧ _
    rw [Cursor.read, Cursor.length_sub_offset]
    by_cases hroom : buf.rest.length < data_type.width.toNat
    · rw [if_pos hroom] at h ⊢
      obtain ⟨rfl, rfl⟩ := Prod.mk.inj (Option.some.inj h)
      refine ⟨1, by rw [Cursor.advance_zero]; rfl, Nat.zero_le _, ?_⟩
      rw [elementsRead, if_neg (by omega)]
    · rw [if_neg hroom] at h ⊢
      obtain ⟨hwidth, h⟩ := Option.ite_none_right_eq_some.mp h
      obtain ⟨rfl, rfl⟩ := Prod.mk.inj (Option.some.inj h)
      refine ⟨_, ?_, Nat.le_of_not_lt hroom, rfl⟩
      show (if data_type.width.toNat ≤ 8 then _ else _ : Decode Nat) _ = _
      rw [if_pos hwidth, List.length_take_of_le (Nat.le_of_not_lt hroom)]
      rfl
  · rw [if_neg harray] at h ⊢
    obtain ⟨rfl, rfl⟩ := Prod.mk.inj (Option.some.inj h)
    exact ⟨1, by rw [Cursor.advance_zero]; rfl, Nat.zero_le _, rfl⟩

-- Nothing is known of the memory only where nothing is read into it.
theorem decode_of_span [Heap] {lead size : Nat} (h : span data_type buf.rest = some (lead, size)) :
    ∃ value, decode data_type buf = some (⟨data_type, value⟩, buf.advance (lead + size)) ∧
      (value = (buf.rest.drop lead).take size ∨ size = 0 ∧
        (value = Heap.alloc value.length ∨ value = List.replicate value.length 0)) := by
  obtain ⟨count, hcount, hlead, rfl⟩ := decode_count_of_span h
  have hdecode := decode_of_count hcount
  rw [Cursor.rest_advance, Cursor.advance_advance, List.length_drop] at hdecode
  refine ⟨_, hdecode, ?_⟩
  rw [elementsRead]
  by_cases hroom : data_type.width.toNat ≤ buf.rest.length - lead
  · by_cases hsize : elementsSize data_type count ≤ buf.rest.length - lead
    · rw [if_pos hroom, if_pos hsize, if_pos ⟨hroom, hsize⟩]
      exact .inl rfl
    · rw [if_pos hroom, if_neg hsize, if_neg fun h => hsize h.2, Heap.length_alloc]
      exact .inr ⟨rfl, .inl rfl⟩
  · rw [if_neg hroom, if_neg fun h => hroom h.1, List.length_replicate]
    exact .inr ⟨rfl, .inr rfl⟩

theorem decode_of_span_none [Heap] (h : span data_type buf.rest = none) : decode data_type buf = none := by
  have hcount : decode_count data_type buf = none := by
    rw [span] at h
    rw [decode_count]
    by_cases harray : data_type.is_array = true
    · rw [if_pos harray] at h ⊢
      rw [bind_apply]
      show (some (buf.read data_type.width.toNat)).bind _ = none
      rw [Cursor.read, Cursor.length_sub_offset]
      by_cases hroom : buf.rest.length < data_type.width.toNat
      · rw [if_pos hroom] at h
        cases h
      · rw [if_neg hroom] at h ⊢
        have hwidth : ¬data_type.width.toNat ≤ 8 := fun hwidth => by
          rw [if_pos hwidth] at h
          cases h
        show (if data_type.width.toNat ≤ 8 then _ else _ : Decode Nat) _ = none
        rw [if_neg hwidth]
        rfl
    · rw [if_neg harray] at h
      cases h
  rw [decode, bind_apply, hcount]
  rfl

-- The bytes of the count that stays 1 where nothing is read over them are zero but the lowest.
theorem count_read {width : Nat} (hpos : 0 < width) (bytes : Bytes) :
    ofLittleEndian (bytes ++ (littleEndian 8 1).drop width) = ofLittleEndian bytes := by
  obtain ⟨n, rfl⟩ : ∃ n, width = n + 1 := ⟨width - 1, by omega⟩
  have hzeros : (littleEndian 8 1).drop (n + 1) = List.replicate (7 - n) 0 := by
    show (List.replicate 7 (0 : UInt8)).drop n = _
    rw [List.drop_replicate]
  rw [hzeros, ofLittleEndian_append_zeros]

-- Where all elements are there, they are read, and so many of them that no size wraps.
theorem span_of_supplied {rest : Bytes} (harray : data_type.is_array = true)
    (hlength : rest.length < 2 ^ 64) (hwidth : data_type.width.toNat ≤ 8)
    (hsupplied : data_type.width.toNat +
      ofLittleEndian (rest.take data_type.width.toNat) * data_type.width.toNat ≤ rest.length) :
    span data_type rest = some (data_type.width.toNat,
      ofLittleEndian (rest.take data_type.width.toNat) * data_type.width.toNat) := by
  rw [span, if_pos harray, if_neg (by omega), if_pos hwidth]
  show some (data_type.width.toNat, elementsRead data_type (ofLittleEndian _) _) = _
  rcases Nat.eq_zero_or_pos data_type.width.toNat with hzero | hpos
  · rw [elementsRead, elementsSize, hzero, Nat.mul_zero, Nat.mul_zero]
    exact congrArg (fun size => some (0, size)) (if_pos ⟨Nat.zero_le _, Nat.zero_le _⟩)
  · rw [count_read hpos, elementsRead, elementsSize, Nat.mod_eq_of_lt (by omega)]
    cases hcount : ofLittleEndian (rest.take data_type.width.toNat) with
    | zero => simp
    | succ count =>
        rw [hcount, Nat.succ_mul] at hsupplied
        rw [Nat.succ_mul, if_pos ⟨by omega, by omega⟩]

theorem span_of_scalar {rest : Bytes}
    (hscalar : data_type.is_array = true → data_type.width.toNat = 0)
    (hroom : data_type.width.toNat ≤ rest.length) :
    span data_type rest = some (0, data_type.width.toNat) := by
  have hwidth := data_type.width.isLt
  have hsize : elementsSize data_type 1 = data_type.width.toNat := by
    rw [elementsSize, Nat.one_mul, Nat.mod_eq_of_lt (by omega)]
  by_cases harray : data_type.is_array = true
  · rw [span, if_pos harray, hscalar harray, if_neg (Nat.not_lt_zero _), if_pos (Nat.zero_le _)]
    simp [elementsRead, elementsSize, hscalar harray]
  · rw [span, if_neg harray, elementsRead, hsize, if_pos ⟨hroom, hroom⟩]

theorem spans_cons_iff {types : List DataDeclaration} {rest : Bytes} {size : Nat} :
    spans (data_type :: types) rest = some size ↔ ∃ lead own more,
      span data_type rest = some (lead, own) ∧ spans types (rest.drop (lead + own)) = some more ∧
        lead + own + more = size := by
  rw [spans]
  constructor
  · intro h
    obtain ⟨⟨lead, own⟩, hspan, h⟩ := Option.bind_eq_some_iff.mp h
    obtain ⟨more, hmore, h⟩ := Option.bind_eq_some_iff.mp h
    exact ⟨lead, own, more, hspan, hmore, Option.some.inj h⟩
  · rintro ⟨lead, own, more, hspan, hmore, rfl⟩
    simp [hspan, hmore]

section Local

variable {rest rest' : Bytes}

-- Of all the bytes only those of the count are looked at.
theorem span_congr {lead size : Nat} (h : span data_type rest = some (lead, size))
    (hlength : rest'.length = rest.length) (hsame : rest'.take lead = rest.take lead) :
    span data_type rest' = some (lead, size) := by
  rw [span] at h ⊢
  rw [hlength]
  by_cases harray : data_type.is_array = true
  · rw [if_pos harray] at h ⊢
    by_cases hroom : rest.length < data_type.width.toNat
    · rw [if_pos hroom] at h ⊢
      exact h
    · rw [if_neg hroom] at h ⊢
      obtain ⟨hwidth, hspan⟩ := Option.ite_none_right_eq_some.mp h
      obtain ⟨rfl, -⟩ := Prod.mk.inj (Option.some.inj hspan)
      rw [if_pos hwidth, hsame]
      exact hspan
  · rw [if_neg harray] at h ⊢
    exact h

-- Where the cursor gets to depends on nothing behind it.
theorem spans_congr {types : List DataDeclaration} {size : Nat} (count : Nat)
    (h : spans types rest = some size) (hlength : rest'.length = rest.length) (hcount : size ≤ count)
    (hsame : rest'.take count = rest.take count) : spans types rest' = some size := by
  induction types generalizing rest rest' size count with
  | nil => exact h
  | cons data_type types ih =>
      obtain ⟨lead, own, more, hspan, hmore, rfl⟩ := spans_cons_iff.mp h
      have htake : ∀ n ≤ count, rest'.take n = rest.take n := by
        intro n hn
        have hboth := congrArg (List.take n) hsame
        rwa [List.take_take, List.take_take, Nat.min_eq_left hn] at hboth
      refine spans_cons_iff.mpr ⟨lead, own, more, span_congr hspan hlength (htake lead (by omega)),
        ih (count - (lead + own)) hmore ?_ (by omega) ?_, rfl⟩
      · rw [List.length_drop, List.length_drop, hlength]
      · rw [← List.drop_take, ← List.drop_take, hsame]

end Local

end RoboCrisp.Comms.DataValue
