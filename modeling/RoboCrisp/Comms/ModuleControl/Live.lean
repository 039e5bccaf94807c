import RoboCrisp.Comms.ModuleControl.Lemmas

namespace RoboCrisp.Comms

open RoboCrisp.Stream RoboCrisp.Util

-- Messages for modules of any size, whatever their bits say of their values.

-- The place of the first pair with an id.
def ValuePair.place (id : Nat) (pairs : List ValuePair) : Option Nat :=
  pairs.findIdx? fun pair => pair.key = some id

theorem ValuePair.place_cons (id : Nat) (pair : ValuePair) (pairs : List ValuePair) :
    place id (pair :: pairs) =
      if pair.key = some id then some 0 else (place id pairs).map (· + 1) := by
  simp only [place, List.findIdx?_cons, decide_eq_true_eq]

theorem ValuePair.place_eq_none {id : Nat} {pairs : List ValuePair} :
    place id pairs = none ↔ ∀ pair ∈ pairs, pair.key ≠ some id := by
  simp [place, List.findIdx?_eq_none_iff]

theorem ValuePair.exists_place {id : Nat} {pairs : List ValuePair} {pair : ValuePair}
    (hpair : pair ∈ pairs) (hkey : pair.key = some id) : ∃ i, place id pairs = some i := by
  apply Option.ne_none_iff_exists'.mp
  intro hnone
  exact place_eq_none.mp hnone pair hpair hkey

namespace ModuleControl

variable {mc : ModuleControl} {m : Module} {pairs : List ValuePair} {input : ModuleInput}

-- The loop follows the inputs up to the first with the id.
theorem find_value_cons (id : UInt8) (first : ModuleInput) (value : DataValue) :
    find_value id (⟨some first, value⟩ :: pairs) =
      if first.input_id = id then some (some 0) else (find_value id pairs).map fun found =>
        found.map (· + 1) := by
  simp only [find_value, Option.bind_eq_bind, Option.bind_some, Option.pure_def]
  split
  · rfl
  · cases find_value id pairs <;> rfl

theorem find_value_of_alive (id : UInt8) (halive : ∀ pair ∈ pairs, pair.input ≠ none) :
    find_value id pairs = some (ValuePair.place id.toNat pairs) := by
  induction pairs with
  | nil => rfl
  | cons pair pairs ih =>
      obtain ⟨input, value⟩ := pair
      obtain ⟨first, rfl⟩ := Option.ne_none_iff_exists'.mp (halive _ List.mem_cons_self)
      have hkey : ValuePair.key ⟨some first, value⟩ = some id.toNat ↔ first.input_id = id := by
        simp [ValuePair.key, UInt8.toNat_inj]
      rw [find_value_cons, ih fun pair hpair => halive pair (List.mem_cons_of_mem _ hpair),
        ValuePair.place_cons]
      by_cases hid : first.input_id = id
      · rw [if_pos hid, if_pos (hkey.mpr hid)]
      · rw [if_neg hid, if_neg fun h => hid (hkey.mp h)]
        rfl

-- Sorting compares nothing when there is only one pair.
theorem sort_values_eq {values : SArray ValuePair} (hholds : values.Holds pairs)
    (halive : pairs.length < 2 ∨ ∀ pair ∈ pairs, pair.input ≠ none) :
    ∃ sorted pairs', sort_values values = some sorted ∧ sorted.Holds pairs' ∧ pairs'.Perm pairs := by
  obtain ⟨sorted, hsort, hsorted⟩ := hholds.sort fun a b => decide (a.input_id ≤ b.input_id)
  refine ⟨sorted, _, ?_, hsorted, List.perm_insertionSort _ _⟩
  have hcan : ¬(2 ≤ pairs.length ∧ ∃ pair ∈ pairs, pair.input = none) := by
    rintro ⟨hlength, pair, hpair, hnone⟩
    rcases halive with hshort | halive
    · omega
    · exact halive pair hpair hnone
  simp only [sort_values, hholds.elems, Option.bind_eq_bind, Option.bind_some]
  rw [if_neg hcan]
  exact hsort

theorem sort_values_eq_none {values : SArray ValuePair} (hholds : values.Holds pairs)
    (hlength : 2 ≤ pairs.length) (hgone : ∃ pair ∈ pairs, pair.input = none) :
    sort_values values = none := by
  simp only [sort_values, hholds.elems, Option.bind_eq_bind, Option.bind_some]
  rw [if_pos ⟨hlength, hgone⟩]

-- A message for `m` with the inputs that its values are for all still there.
structure Live (m : Module) (mc : ModuleControl) (pairs : List ValuePair) : Prop where
  module_eq : mc.module = some m
  holds : mc.values.Holds pairs
  alive : ∀ pair ∈ pairs, pair.input ≠ none

theorem live_forModule (m : Module) : Live m (forModule m) [] :=
  ⟨rfl, ((SArray.holds_alloc 0).ensure_capacity _).1, fun _ h => absurd h List.not_mem_nil⟩

-- What is left of a message when a value has been added.
structure Added (input : ModuleInput) (bit : BitVec 16) (mc after : ModuleControl)
    (pairs pairs' : List ValuePair) : Prop where
  module_eq : after.module = mc.module
  module_id_eq : after.module_id = mc.module_id
  input_ids_eq : after.input_ids = mc.input_ids ||| bit
  holds : after.values.Holds pairs'
  perm : pairs'.Perm (⟨some input, .ofType input.data_type⟩ :: pairs)

theorem add_value_eq (hholds : mc.values.Holds pairs)
    (halive : pairs = [] ∨ ∀ pair ∈ pairs, pair.input ≠ none) (input : ModuleInput)
    (bit : BitVec 16) :
    ∃ after pairs', mc.add_value input bit = some after ∧ Added input bit mc after pairs pairs' := by
  obtain ⟨pushed, hpush, hpushed⟩ := hholds.push ⟨some input, .ofType input.data_type⟩
  obtain ⟨sorted, pairs', hsort, hsorted, hperm⟩ := sort_values_eq hpushed (by
    rcases halive with rfl | halive
    · exact .inl (Nat.lt_succ_self 1)
    · right
      intro pair hpair
      rcases List.mem_append.mp hpair with hpair | hpair
      · exact halive pair hpair
      · rw [List.mem_singleton.mp hpair]
        exact Option.some_ne_none input)
  refine ⟨{ mc with input_ids := mc.input_ids ||| bit, values := sorted }, pairs', ?_,
    ⟨rfl, rfl, rfl, hsorted, hperm.trans List.perm_append_comm⟩⟩
  simp only [add_value, hpush, hsort, Option.bind_eq_bind, Option.bind_some]
  rfl

theorem Added.live {after : ModuleControl} {bit : BitVec 16} {pairs' : List ValuePair}
    (h : Added input bit mc after pairs pairs') (hm : mc.module = some m)
    (halive : ∀ pair ∈ pairs, pair.input ≠ none) : Live m after pairs' := by
  refine ⟨h.module_eq.trans hm, h.holds, fun pair hpair => ?_⟩
  rcases List.mem_cons.mp (h.perm.mem_iff.mp hpair) with rfl | hpair
  · exact Option.some_ne_none input
  · exact halive pair hpair

section Lookup

variable (h : Live m mc pairs) (hlt : input.input_id < m.num_inputs) (hid : input.input_id.toNat < 16)

include h hlt hid

theorem Live.value_for_unset (hbit : mc.input_ids.getLsbD input.input_id.toNat = false) :
    ∃ after pairs' i, mc.value_for input = some (after, some i) ∧
      Added input (BitVec.twoPow 16 input.input_id.toNat) mc after pairs pairs' ∧
      ValuePair.place input.input_id.toNat pairs' = some i := by
  have hzero : mc.input_ids &&& BitVec.twoPow 16 input.input_id.toNat = 0 :=
    (and_twoPow_eq_zero_iff hid).mpr hbit
  obtain ⟨after, pairs', hadd, hadded⟩ := add_value_eq h.holds (.inr h.alive) input
    (BitVec.twoPow 16 input.input_id.toNat)
  have hlive := hadded.live h.module_eq h.alive
  have hne : ¬after.input_ids &&& BitVec.twoPow 16 input.input_id.toNat = 0 := by
    rw [and_twoPow_eq_zero_iff hid, hadded.input_ids_eq, getLsbD_or_twoPow hid]
    simp
  obtain ⟨i, hi⟩ := ValuePair.exists_place (hadded.perm.mem_iff.mpr List.mem_cons_self) rfl
  refine ⟨after, pairs', i, ?_, hadded, hi⟩
  simp only [value_for, h.module_eq, inputBit_eq hid, Option.bind_eq_bind, Option.bind_some]
  rw [if_pos ⟨mc.get_num_values_le, hlt⟩]
  simp only [if_pos hzero, hadd, Option.bind_some, if_neg hne, hlive.holds.elems,
    find_value_of_alive _ hlive.alive, hi]
  rfl

end Lookup

theorem twoPow_eq_zero {id : Nat} (hid : 16 ≤ id) : BitVec.twoPow 16 id = 0 :=
  BitVec.eq_of_toNat_eq (BitVec.toNat_twoPow_of_le hid)

-- A bit above the mask is cut off.
theorem inputBit_eq_zero {id : UInt8} {bit : BitVec 16} (hid : 16 ≤ id.toNat)
    (hbit : inputBit id = some bit) : bit = 0 := by
  rw [inputBit] at hbit
  split at hbit
  · rw [← Option.some.inj hbit, twoPow_eq_zero hid]
  · cases hbit

-- The two assertions, and the bits that there are.
theorem value_for_addresses {found : ModuleControl × Option Nat} (hm : mc.module = some m)
    (h : mc.value_for input = some found) :
    input.input_id < m.num_inputs ∧ input.input_id.toNat < 16 := by
  simp only [value_for, hm, Option.bind_eq_bind, Option.bind_some] at h
  split at h
  · rename_i hassert
    refine ⟨hassert.2, Nat.lt_of_not_le fun hge => ?_⟩
    cases hbit : inputBit input.input_id with
    | none =>
        rw [hbit] at h
        cases h
    | some bit =>
        rw [hbit, inputBit_eq_zero hge hbit] at h
        simp at h
  · cases h

end ModuleControl

end RoboCrisp.Comms
