import RoboCrisp.Comms.ModuleControl
import RoboCrisp.Util.Ascending
import RoboCrisp.Util.SArray.Lemmas

namespace RoboCrisp.Comms

open RoboCrisp.Stream RoboCrisp.Util

theorem and_twoPow_eq_zero_iff {input_ids : BitVec 16} {i : Nat} (hi : i < 16) :
    input_ids &&& BitVec.twoPow 16 i = 0 ↔ input_ids.getLsbD i = false := by
  rw [BitVec.and_twoPow]
  cases hbit : input_ids.getLsbD i with
  | false => simp
  | true =>
      have hbit' : (BitVec.twoPow 16 i).getLsbD i = true := by simp [hi]
      simp only [ite_true, Bool.true_eq_false, iff_false]
      intro hzero
      rw [hzero] at hbit'
      simp at hbit'

theorem getLsbD_or_twoPow {input_ids : BitVec 16} {i : Nat} (hi : i < 16) (j : Nat) :
    (input_ids ||| BitVec.twoPow 16 i).getLsbD j = (input_ids.getLsbD j || decide (i = j)) := by
  rw [BitVec.getLsbD_or, BitVec.getLsbD_twoPow]
  simp [hi]

theorem or_twoPow_of_set {input_ids : BitVec 16} {i : Nat} (hi : i < 16)
    (hbit : input_ids.getLsbD i = true) : input_ids ||| BitVec.twoPow 16 i = input_ids := by
  apply BitVec.eq_of_getLsbD_eq
  intro j _
  rw [getLsbD_or_twoPow hi]
  by_cases hj : i = j
  · rw [← hj, hbit, Bool.true_or]
  · rw [decide_eq_false hj, Bool.or_false]

section Pairs

-- The id behind the pointer of a pair, if the pointer still leads to an input.
def ValuePair.key (pair : ValuePair) : Option Nat := pair.input.map fun input => input.input_id.toNat

variable {pairs : List ValuePair} {ids : List Nat}

theorem input_id_of_key (h : pairs.map ValuePair.key = ids.map some) :
    pairs.map ValuePair.input_id = ids := by
  have hmap : pairs.map ValuePair.input_id = (pairs.map ValuePair.key).map fun key => key.getD 0 := by
    rw [List.map_map]
    rfl
  rw [hmap, h, List.map_map]
  simp

theorem key_of_input_id (h : pairs.map ValuePair.input_id = ids)
    (hinputs : ∀ pair ∈ pairs, pair.input ≠ none) : pairs.map ValuePair.key = ids.map some := by
  rw [← h, List.map_map]
  refine List.map_congr_left fun pair hpair => ?_
  obtain ⟨input, hinput⟩ := Option.ne_none_iff_exists'.mp (hinputs pair hpair)
  simp [ValuePair.key, ValuePair.input_id, hinput]

theorem input_ne_none_of_key (h : pairs.map ValuePair.key = ids.map some) :
    ∀ pair ∈ pairs, pair.input ≠ none := by
  intro pair hpair hnone
  have hmem : pair.key ∈ ids.map some := h ▸ List.mem_map_of_mem hpair
  rw [ValuePair.key, hnone] at hmem
  simp at hmem

theorem find_value_eq (h : pairs.map ValuePair.key = ids.map some) (input_id : UInt8) :
    ModuleControl.find_value input_id pairs =
      some (if input_id.toNat ∈ ids then some (ids.idxOf input_id.toNat) else none) := by
  induction pairs generalizing ids with
  | nil =>
      obtain rfl : ids = [] := List.map_eq_nil_iff.mp h.symm
      rfl
  | cons pair pairs ih =>
      cases ids with
      | nil => exact absurd h (by simp)
      | cons id ids =>
          obtain ⟨hhead, htail⟩ := List.cons.inj h
          obtain ⟨input, hinput, hid⟩ := Option.map_eq_some_iff.mp hhead
          simp only [ModuleControl.find_value, hinput, Option.bind_eq_bind, Option.bind_some, ih htail]
          by_cases heq : input.input_id = input_id
          · have hhere : id = input_id.toNat := by rw [← hid, heq]
            simp [heq, hhere]
          · have hne : id ≠ input_id.toNat := by
              rw [← hid]
              exact fun h => heq (UInt8.toNat_inj.mp h)
            simp only [heq, ite_false, List.mem_cons, hne.symm, false_or, List.idxOf_cons_ne _ hne]
            split <;> rfl

theorem key_idxOf (h : pairs.map ValuePair.key = ids.map some) {id : Nat} (hid : id ∈ ids) :
    ∃ pair, pairs[ids.idxOf id]? = some pair ∧ pair.key = some id := by
  have hkey : (pairs.map ValuePair.key)[ids.idxOf id]? = some (some id) := by
    rw [h, List.getElem?_map, List.getElem?_idxOf hid]
    rfl
  rw [List.getElem?_map] at hkey
  exact Option.map_eq_some_iff.mp hkey

theorem nodup_keys (hkeys : pairs.map ValuePair.key = ids.map some) (hids : ids.Pairwise (· < ·)) :
    (pairs.map ValuePair.key).Nodup := by
  rw [hkeys]
  exact List.Nodup.map (Option.some_injective _) (hids.imp Nat.ne_of_lt)

theorem ValuePair.eq_of_key
    (hkeys : pairs.map ValuePair.key = ids.map some) (hids : ids.Pairwise (· < ·))
    {first second : ValuePair} (hfirst : first ∈ pairs) (hsecond : second ∈ pairs)
    (hkey : first.key = second.key) : first = second :=
  List.inj_on_of_nodup_map (nodup_keys hkeys hids) hfirst hsecond hkey

-- Only the pair that is replaced has its key.
theorem mem_set_iff_of_keys (hkeys : pairs.map ValuePair.key = ids.map some)
    (hids : ids.Pairwise (· < ·)) {i : Nat} {pair new other : ValuePair} (hpair : pairs[i]? = some pair) :
    other ∈ pairs.set i new ↔ other = new ∨ other ∈ pairs ∧ other.key ≠ pair.key := by
  obtain ⟨hi, rfl⟩ := List.getElem?_eq_some_iff.mp hpair
  constructor
  · intro hother
    obtain ⟨j, hj, rfl⟩ := List.getElem_of_mem hother
    rw [List.length_set] at hj
    by_cases hij : i = j
    · subst hij
      exact .inl (List.getElem_set_self _)
    · rw [List.getElem_set_ne hij]
      refine .inr ⟨List.getElem_mem hj, fun hsame => hij ?_⟩
      have hi' : i < (pairs.map ValuePair.key).length := by rwa [List.length_map]
      have hj' : j < (pairs.map ValuePair.key).length := by rwa [List.length_map]
      have hkey : (pairs.map ValuePair.key)[i] = (pairs.map ValuePair.key)[j] := by
        rw [List.getElem_map, List.getElem_map, hsame]
      exact (nodup_keys hkeys hids).getElem_inj_iff.mp hkey
  · rintro (rfl | ⟨hother, hne⟩)
    · exact List.mem_set hi _
    · obtain ⟨j, hj, rfl⟩ := List.getElem_of_mem hother
      have hij : i ≠ j := by
        rintro rfl
        exact hne rfl
      exact List.mem_of_getElem? (i := j)
        (by rw [List.getElem?_set_ne hij, List.getElem?_eq_getElem hj])

-- A new pair is sorted in among the old ones.
theorem sort_push {values : SArray ValuePair} (hholds : values.Holds pairs)
    (hkeys : pairs.map ValuePair.key = ids.map some) (hids : ids.Pairwise (· < ·))
    (input : ModuleInput) (value : DataValue) (hnew : input.input_id.toNat ∉ ids) {ids' : List Nat}
    (hids' : ids'.Pairwise (· < ·)) (hmem : ∀ i, i ∈ ids' ↔ i ∈ ids ∨ i = input.input_id.toNat) :
    ∃ pushed sorted pairs', values.push ⟨some input, value⟩ = some pushed ∧
      ModuleControl.sort_values pushed = some sorted ∧ sorted.Holds pairs' ∧
      pairs'.map ValuePair.key = ids'.map some ∧ pairs'.Perm (pairs ++ [⟨some input, value⟩]) := by
  obtain ⟨pushed, hpush, hpushed⟩ := hholds.push ⟨some input, value⟩
  obtain ⟨sorted, hsort, hsorted⟩ := hpushed.sort fun a b => decide (a.input_id ≤ b.input_id)
  have hinputs : ∀ pair ∈ pairs ++ [⟨some input, value⟩], pair.input ≠ none := by
    intro pair hpair
    rcases List.mem_append.mp hpair with hpair | hpair
    · exact input_ne_none_of_key hkeys pair hpair
    · rw [List.mem_singleton.mp hpair]
      simp
  have hmap : (pairs ++ [(⟨some input, value⟩ : ValuePair)]).map ValuePair.input_id =
      ids ++ [input.input_id.toNat] := by
    rw [List.map_append, input_id_of_key hkeys]
    rfl
  have hperm := List.perm_insertionSort (fun a b : ValuePair => decide (a.input_id ≤ b.input_id))
    (pairs ++ [⟨some input, value⟩])
  refine ⟨pushed, sorted, _, hpush, ?_, hsorted, key_of_input_id ?_ ?_, hperm⟩
  · have hnone : ¬∃ pair ∈ pairs ++ [(⟨some input, value⟩ : ValuePair)], pair.input = none := by
      rintro ⟨pair, hpair, h⟩
      exact hinputs pair hpair h
    simp only [ModuleControl.sort_values, hpushed.elems, Option.bind_eq_bind, Option.bind_some]
    rw [if_neg fun h => hnone h.2]
    exact hsort
  · refine keys_insertionSort ValuePair.input_id hids' ?_ fun i => ?_
    · rw [hmap, List.nodup_append]
      refine ⟨hids.imp Nat.ne_of_lt, List.nodup_singleton _, ?_⟩
      rintro a ha b hb rfl
      exact hnew (List.mem_singleton.mp hb ▸ ha)
    · rw [hmap, hmem, List.mem_append, List.mem_singleton]
  · exact fun pair hpair => hinputs pair (hperm.mem_iff.mp hpair)

end Pairs

namespace ModuleControl

variable {mc mc' : ModuleControl} {m : Module}

theorem mem_setInputs {input_ids : BitVec 16} {i : Nat} :
    i ∈ setInputs input_ids ↔ i < 15 ∧ input_ids.getLsbD i = true := by
  rw [setInputs, List.mem_filter, List.mem_range]

theorem ascending_setInputs (input_ids : BitVec 16) : (setInputs input_ids).Pairwise (· < ·) :=
  ascending_filter_range 15 _

-- The ids whose values a message carries.
def carried (mc : ModuleControl) : List Nat := if mc.is_clear then [] else setInputs mc.input_ids

theorem length_carried (mc : ModuleControl) : mc.carried.length = mc.get_num_values := by
  unfold carried get_num_values
  split <;> rfl

theorem ascending_carried (mc : ModuleControl) : mc.carried.Pairwise (· < ·) := by
  unfold carried
  split
  · exact List.Pairwise.nil
  · exact ascending_setInputs _

theorem get_num_values_le (mc : ModuleControl) : mc.get_num_values ≤ Module.MAX_INPUTS := by
  rw [← length_carried, carried]
  split
  · exact Nat.zero_le _
  · exact (List.length_filter_le _ _).trans (by simp [Module.MAX_INPUTS])

theorem resolve_of_module (hm : mc.module = some m) (key : InputKey) :
    mc.resolve key = (forModule m).resolve key := by
  cases key with
  | name name =>
      rw [resolve, hm]
      rfl
  | input input => rfl

-- The calls on a message with values for `ids`, whatever its bits say of them.
section Keys

variable {pairs : List ValuePair} {ids ids' : List Nat} {input : ModuleInput}

theorem inputBit_eq (hid : input.input_id.toNat < 16) :
    inputBit input.input_id = some (BitVec.twoPow 16 input.input_id.toNat) := if_pos (by omega)

theorem add_value_of_keys (hholds : mc.values.Holds pairs) (hkeys : pairs.map ValuePair.key = ids.map some)
    (hids : ids.Pairwise (· < ·)) (hnew : input.input_id.toNat ∉ ids) (hids' : ids'.Pairwise (· < ·))
    (hmem : ∀ i, i ∈ ids' ↔ i ∈ ids ∨ i = input.input_id.toNat) (bit : BitVec 16) :
    ∃ values pairs', mc.add_value input bit =
        some { mc with input_ids := mc.input_ids ||| bit, values } ∧
      values.Holds pairs' ∧ pairs'.map ValuePair.key = ids'.map some ∧
      pairs'.Perm (pairs ++ [⟨some input, .ofType input.data_type⟩]) := by
  obtain ⟨pushed, sorted, pairs', hpush, hsort, hholds', hkeys', hperm⟩ := sort_push hholds hkeys
    hids input (.ofType input.data_type) hnew hids' hmem
  refine ⟨sorted, pairs', ?_, hholds', hkeys', hperm⟩
  simp only [ModuleControl.add_value, hpush, hsort, Option.bind_eq_bind, Option.bind_some]
  rfl

-- What value_for does for an input whose bit is set.
theorem value_for_of_keys_set (hm : mc.module = some m) (hholds : mc.values.Holds pairs)
    (hkeys : pairs.map ValuePair.key = ids.map some) (hlt : input.input_id < m.num_inputs)
    (hid : input.input_id.toNat < 16)
    (hbit : mc.input_ids.getLsbD input.input_id.toNat = true) :
    mc.value_for input = some (mc, if input.input_id.toNat ∈ ids then
      some (ids.idxOf input.input_id.toNat) else none) := by
  have hne : ¬mc.input_ids &&& BitVec.twoPow 16 input.input_id.toNat = 0 := by
    rw [and_twoPow_eq_zero_iff hid, hbit]
    simp
  simp only [value_for, hm, Option.bind_eq_bind, Option.bind_some, inputBit_eq hid, hholds.elems,
    find_value_eq hkeys]
  rw [if_pos ⟨mc.get_num_values_le, hlt⟩]
  simp only [if_neg hne]
  rfl

-- What value_for does for an input whose bit is not set.
theorem value_for_of_keys_unset (hm : mc.module = some m) (hholds : mc.values.Holds pairs)
    (hkeys : pairs.map ValuePair.key = ids.map some) (hids : ids.Pairwise (· < ·))
    (hnew : input.input_id.toNat ∉ ids) (hids' : ids'.Pairwise (· < ·))
    (hmem : ∀ i, i ∈ ids' ↔ i ∈ ids ∨ i = input.input_id.toNat)
    (hlt : input.input_id < m.num_inputs) (hid : input.input_id.toNat < 16)
    (hbit : mc.input_ids.getLsbD input.input_id.toNat = false) :
    ∃ values pairs', mc.value_for input = some ({ mc with
          input_ids := mc.input_ids ||| BitVec.twoPow 16 input.input_id.toNat, values },
        some (ids'.idxOf input.input_id.toNat)) ∧
      values.Holds pairs' ∧ pairs'.map ValuePair.key = ids'.map some ∧
      pairs'.Perm (pairs ++ [⟨some input, .ofType input.data_type⟩]) := by
  have hzero : mc.input_ids &&& BitVec.twoPow 16 input.input_id.toNat = 0 :=
    (and_twoPow_eq_zero_iff hid).mpr hbit
  have hne : ¬(mc.input_ids ||| BitVec.twoPow 16 input.input_id.toNat) &&&
      BitVec.twoPow 16 input.input_id.toNat = 0 := by
    rw [and_twoPow_eq_zero_iff hid, getLsbD_or_twoPow hid]
    simp
  obtain ⟨values, pairs', hadd, hholds', hkeys', hperm⟩ := add_value_of_keys hholds hkeys hids hnew
    hids' hmem (BitVec.twoPow 16 input.input_id.toNat)
  refine ⟨values, pairs', ?_, hholds', hkeys', hperm⟩
  simp only [value_for, hm, Option.bind_eq_bind, Option.bind_some, inputBit_eq hid]
  rw [if_pos ⟨mc.get_num_values_le, hlt⟩]
  simp only [if_pos hzero, hadd, hm, Option.bind_some, if_neg hne, hholds'.elems, find_value_eq hkeys',
    if_pos ((hmem _).mpr (.inr rfl))]
  rfl

end Keys

-- The values in the array are those of the inputs the mask announces, in their order.
def Carries (Good : ValuePair → Prop) (mc : ModuleControl) (pairs : List ValuePair) : Prop :=
  mc.values.Holds pairs ∧ pairs.map ValuePair.key = mc.carried.map some ∧ ∀ pair ∈ pairs, Good pair

variable {Good : ValuePair → Prop} {pairs : List ValuePair}

theorem Carries.received (h : mc.Carries Good pairs) {out : ModuleControl}
    (hholds : out.values.Holds pairs) (hids : out.input_ids = mc.input_ids) : out.Carries Good pairs := by
  refine ⟨hholds, ?_, h.2.2⟩
  rw [carried, is_clear, hids]
  exact h.2.1

theorem Carries.length_eq (h : mc.Carries Good pairs) : pairs.length = mc.get_num_values := by
  rw [← length_carried, ← List.length_map (f := ValuePair.key), h.2.1, List.length_map]

theorem carried_of_zero (h : mc.input_ids = 0) : mc.carried = [] := by
  simp only [carried, is_clear, h]
  decide

theorem carries_forModule (m : Module) : (forModule m).Carries Good [] :=
  ⟨((SArray.holds_alloc 0).ensure_capacity _).1, by rw [carried_of_zero rfl]; rfl,
    fun pair h => absurd h List.not_mem_nil⟩

theorem carries_reset (h : mc.values.Holds pairs) (m : Option Module) :
    (mc.reset m).Carries Good [] :=
  ⟨h.clear, by rw [carried_of_zero rfl]; rfl, fun pair h => absurd h List.not_mem_nil⟩

-- What value_for does for an input whose bit is set.
theorem Carries.value_for_set (h : mc.Carries Good pairs) (hm : mc.module = some m)
    {input : ModuleInput} (hlt : input.input_id < m.num_inputs) (hid : input.input_id.toNat < 15)
    (hbit : mc.input_ids.getLsbD input.input_id.toNat = true) :
    mc.value_for input = some (mc, if input.input_id.toNat ∈ mc.carried then
      some (mc.carried.idxOf input.input_id.toNat) else none) :=
  value_for_of_keys_set hm h.1 h.2.1 hlt (by omega) hbit

-- What value_for does for an input whose bit is not set. A clear message carries the new value
-- along without announcing it.
theorem Carries.value_for_unset (h : mc.Carries Good pairs) (hm : mc.module = some m)
    {input : ModuleInput} (hlt : input.input_id < m.num_inputs) (hid : input.input_id.toNat < 15)
    (hbit : mc.input_ids.getLsbD input.input_id.toNat = false)
    (hgood : Good ⟨some input, .ofType input.data_type⟩) :
    ∃ values pairs' i, mc.value_for input = some ({ mc with
          input_ids := mc.input_ids ||| BitVec.twoPow 16 input.input_id.toNat, values }, some i) ∧
      (∃ pair, pairs'[i]? = some pair ∧ pair.key = some input.input_id.toNat) ∧
      values.Holds pairs' ∧ (∀ pair ∈ pairs', Good pair) ∧
      pairs'.map ValuePair.key = ((if mc.is_clear then [input.input_id.toNat] else
        setInputs (mc.input_ids ||| BitVec.twoPow 16 input.input_id.toNat)).map some) := by
  obtain ⟨hholds, hkeys, hpairs⟩ := h
  have hnew : input.input_id.toNat ∉ mc.carried := by
    unfold carried
    split
    · exact List.not_mem_nil
    · intro hmem
      rw [mem_setInputs, hbit] at hmem
      exact absurd hmem.2 (by simp)
  have hmem : ∀ i, i ∈ (if mc.is_clear then [input.input_id.toNat] else
      setInputs (mc.input_ids ||| BitVec.twoPow 16 input.input_id.toNat)) ↔
      i ∈ mc.carried ∨ i = input.input_id.toNat := by
    intro i
    unfold carried
    split
    · simp
    · rw [mem_setInputs, mem_setInputs, getLsbD_or_twoPow (by omega)]
      constructor
      · rintro ⟨hi, hor⟩
        rcases Bool.or_eq_true_iff.mp hor with hset | heq
        · exact .inl ⟨hi, hset⟩
        · exact .inr (of_decide_eq_true heq).symm
      · rintro (⟨hi, hset⟩ | rfl)
        · exact ⟨hi, by simp [hset]⟩
        · exact ⟨hid, by simp⟩
  have hids' : (if mc.is_clear then [input.input_id.toNat] else
      setInputs (mc.input_ids ||| BitVec.twoPow 16 input.input_id.toNat)).Pairwise (· < ·) := by
    split
    · exact List.pairwise_singleton _ _
    · exact ascending_setInputs _
  obtain ⟨values, pairs', hvalue, hholds', hkeys', hperm⟩ := value_for_of_keys_unset hm hholds hkeys
    mc.ascending_carried hnew hids' hmem hlt (by omega) hbit
  refine ⟨values, pairs', _, hvalue, key_idxOf hkeys' ((hmem _).mpr (.inr rfl)), hholds',
    fun pair hpair => ?_, hkeys'⟩
  rcases List.mem_append.mp (hperm.mem_iff.mp hpair) with hpair | hpair
  · exact hpairs pair hpair
  · rw [List.mem_singleton.mp hpair]
    exact hgood

-- What value_for does on a message that is not clear: it finds the value of the input, if
-- need be after adding one.
theorem Carries.value_for (h : mc.Carries Good pairs) (hm : mc.module = some m)
    (hclear : mc.is_clear = false) {input : ModuleInput} (hlt : input.input_id < m.num_inputs)
    (hid : input.input_id.toNat < 15)
    (hgood : mc.input_ids.getLsbD input.input_id.toNat = false →
      Good ⟨some input, .ofType input.data_type⟩) :
    ∃ after i pair pairs', mc.value_for input = some (after, some i) ∧
      after.module = mc.module ∧ after.module_id = mc.module_id ∧ after.is_clear = false ∧
      after.input_ids = mc.input_ids ||| BitVec.twoPow 16 input.input_id.toNat ∧
      (mc.input_ids.getLsbD input.input_id.toNat = true → after = mc) ∧
      after.Carries Good pairs' ∧ pairs'[i]? = some pair ∧
      pair.key = some input.input_id.toNat := by
  cases hbit : mc.input_ids.getLsbD input.input_id.toNat with
  | true =>
      have hmem : input.input_id.toNat ∈ mc.carried := by
        rw [carried, hclear]
        exact mem_setInputs.mpr ⟨hid, hbit⟩
      have hids := (or_twoPow_of_set (by omega) hbit).symm
      obtain ⟨pair, hpair, hkey⟩ := key_idxOf h.2.1 hmem
      have hvalue := h.value_for_set hm hlt hid hbit
      rw [if_pos hmem] at hvalue
      exact ⟨mc, _, pair, pairs, hvalue, rfl, rfl, hclear, hids, fun _ => rfl, h, hpair, hkey⟩
  | false =>
      obtain ⟨values, pairs', i, hvalue, ⟨pair, hpair, hkey⟩, hholds, hgood', hkeys⟩ :=
        h.value_for_unset hm hlt hid hbit (hgood hbit)
      have hstays : (mc.input_ids ||| BitVec.twoPow 16 input.input_id.toNat).getLsbD 15 = false := by
        rw [getLsbD_or_twoPow (by omega), decide_eq_false (by omega), Bool.or_false]
        exact hclear
      refine ⟨_, i, pair, pairs', hvalue, rfl, rfl, hstays, rfl, nofun, ⟨hholds, ?_, hgood'⟩, hpair,
        hkey⟩
      rw [hkeys, hclear, carried, is_clear, hstays]
      rfl

end ModuleControl

end RoboCrisp.Comms
