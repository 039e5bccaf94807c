import RoboCrisp.Comms.Configuration.Build
import RoboCrisp.Comms.ModuleControl.Live

namespace RoboCrisp.Comms

open RoboCrisp.Stream RoboCrisp.Util

namespace ModuleControl

-- value_for as it stands, up to `calls` calls deep. The result is `some none` when these are not
-- enough, and `none` when an assertion fails or what happens is undefined.
def value_for_within : Nat → ModuleControl → ModuleInput → Option (Option (ModuleControl × Option Nat))
  | 0, _, _ => some none
  | calls + 1, mc, input => do
      let m ← mc.module
      if mc.get_num_values ≤ Module.MAX_INPUTS ∧ input.input_id < m.num_inputs then do
        let bit ← inputBit input.input_id
        if mc.input_ids &&& bit = 0 then do
          let mc ← mc.add_value input bit
          value_for_within calls mc input
        else do
          let pairs ← mc.values.elems
          let found ← find_value input.input_id pairs
          return some (mc, found)
      else none

-- The call ends with at most one call of itself, the bit of the input set and at most one value
-- more than before.
def Ends (mc : ModuleControl) (input : ModuleInput) : Prop :=
  ∃ after found, (∀ calls, 2 ≤ calls → value_for_within calls mc input = some (some (after, found))) ∧
    (∃ bit, inputBit input.input_id = some bit ∧ after.input_ids &&& bit ≠ 0) ∧
    after.values.size ≤ mc.values.size + 1

-- The loop over the values looks at no pair whose input is gone.
def Leads (id : Nat) : List ValuePair → Prop
  | [] => True
  | pair :: rest => pair.input ≠ none ∧ (pair.key = some id ∨ Leads id rest)

-- Neither does the sort when a value is added.
def Followable (mc : ModuleControl) (input : ModuleInput) (pairs : List ValuePair) : Prop :=
  if mc.input_ids.getLsbD input.input_id.toNat then Leads input.input_id.toNat pairs
  else pairs = [] ∨ ∀ pair ∈ pairs, pair.input ≠ none

variable {mc after : ModuleControl} {m : Module} {pairs : List ValuePair} {input : ModuleInput}
  {found : Option Nat} {calls : Nat}

theorem find_value_iff_leads (id : UInt8) :
    (∃ found, find_value id pairs = some found) ↔ Leads id.toNat pairs := by
  induction pairs with
  | nil => exact iff_of_true ⟨none, rfl⟩ trivial
  | cons pair pairs ih =>
      obtain ⟨target, value⟩ := pair
      cases target with
      | none => simp [find_value, Leads]
      | some first =>
          rw [find_value_cons]
          by_cases hid : first.input_id = id
          · simp [hid, Leads, ValuePair.key]
          · have hne : ValuePair.key ⟨some first, value⟩ ≠ some id.toNat := by
              simpa [ValuePair.key, UInt8.toNat_inj] using hid
            rw [if_neg hid, Leads, ← ih]
            simp [hne]

theorem add_value_alive {bit : BitVec 16} (hholds : mc.values.Holds pairs)
    (h : mc.add_value input bit = some after) :
    pairs = [] ∨ ∀ pair ∈ pairs, pair.input ≠ none := by
  obtain ⟨pushed, hpush, h⟩ := Option.bind_eq_some_iff.mp h
  obtain ⟨sorted, hsort, -⟩ := Option.bind_eq_some_iff.mp h
  obtain ⟨pushed', hpush', hpushed⟩ := hholds.push ⟨some input, .ofType input.data_type⟩
  obtain rfl := Option.some.inj (hpush.symm.trans hpush')
  by_contra hgone
  rw [not_or] at hgone
  obtain ⟨hne, hgone⟩ := hgone
  push Not at hgone
  obtain ⟨pair, hpair, hnone⟩ := hgone
  have hlength := List.length_pos_of_ne_nil hne
  rw [sort_values_eq_none hpushed (by rw [List.length_append, List.length_singleton]; omega)
    ⟨pair, List.mem_append_left _ hpair, hnone⟩] at hsort
  cases hsort

theorem add_value_module {bit : BitVec 16} (h : mc.add_value input bit = some after) :
    after.module = mc.module ∧ after.input_ids = mc.input_ids ||| bit := by
  obtain ⟨pushed, -, h⟩ := Option.bind_eq_some_iff.mp h
  obtain ⟨sorted, -, h⟩ := Option.bind_eq_some_iff.mp h
  obtain rfl := Option.some.inj h
  exact ⟨rfl, rfl⟩

theorem add_value_sets {bit : BitVec 16} (hne : bit ≠ 0) (h : mc.add_value input bit = some after) :
    after.input_ids &&& bit ≠ 0 := by
  rw [(add_value_module h).2, BitVec.and_comm, BitVec.and_or_distrib_left, BitVec.and_self]
  intro hzero
  exact hne (BitVec.or_eq_zero_iff.mp hzero).2

theorem twoPow_ne_zero {id : Nat} (hid : id < 16) : BitVec.twoPow 16 id ≠ 0 := by
  intro hzero
  have hbit : (BitVec.twoPow 16 id).getLsbD id = true := by simp [hid]
  rw [hzero] at hbit
  simp at hbit

section Call

variable (hm : mc.module = some m) (hlt : input.input_id < m.num_inputs) {bit : BitVec 16}
  (hinput : inputBit input.input_id = some bit)

include hm hlt hinput

theorem within_of_unset (hbit : mc.input_ids &&& bit = 0) :
    value_for_within (calls + 1) mc input =
      (mc.add_value input bit).bind fun after => value_for_within calls after input := by
  simp only [value_for_within, hm, hinput, Option.bind_eq_bind, Option.bind_some]
  rw [if_pos ⟨mc.get_num_values_le, hlt⟩, if_pos hbit]

theorem value_for_of_set (hbit : mc.input_ids &&& bit ≠ 0) :
    mc.value_for input = mc.values.elems.bind fun pairs =>
      (find_value input.input_id pairs).map fun found => (mc, found) := by
  simp only [value_for, hm, hinput, Option.bind_eq_bind, Option.bind_some]
  rw [if_pos ⟨mc.get_num_values_le, hlt⟩, if_neg hbit]
  simp only [if_neg hbit]
  congr 1
  funext pairs
  cases find_value input.input_id pairs <;> rfl

-- The value that has been added is looked for by another call.
theorem value_for_of_unset (hbit : mc.input_ids &&& bit = 0) (hne : bit ≠ 0) :
    mc.value_for input = (mc.add_value input bit).bind fun after => after.value_for input := by
  have hcall : mc.value_for input = (mc.add_value input bit).bind fun after =>
      if after.input_ids &&& bit = 0 then none else after.values.elems.bind fun pairs =>
        (find_value input.input_id pairs).map fun found => (after, found) := by
    simp only [value_for, hm, hinput, Option.bind_eq_bind, Option.bind_some]
    rw [if_pos ⟨mc.get_num_values_le, hlt⟩, if_pos hbit]
    refine Option.bind_congr fun after _ => ?_
    split
    · rfl
    · refine Option.bind_congr fun pairs _ => ?_
      cases find_value input.input_id pairs <;> rfl
  rw [hcall]
  refine Option.bind_congr fun after hafter => ?_
  have hset := add_value_sets hne hafter
  rw [if_neg hset, value_for_of_set ((add_value_module hafter).1.trans hm) hlt hinput hset]

theorem within_of_set (hbit : mc.input_ids &&& bit ≠ 0) :
    value_for_within (calls + 1) mc input = (mc.value_for input).map some := by
  rw [value_for_of_set hm hlt hinput hbit]
  simp only [value_for_within, hm, hinput, Option.bind_eq_bind, Option.bind_some]
  rw [if_pos ⟨mc.get_num_values_le, hlt⟩, if_neg hbit]
  cases mc.values.elems with
  | none => rfl
  | some pairs => cases hfound : find_value input.input_id pairs <;> simp [hfound]

-- Two calls are enough for the result, if the bit of the input is one that stays.
theorem within_two (hne : bit ≠ 0) (calls : Nat) :
    value_for_within (calls + 2) mc input = (mc.value_for input).map some := by
  by_cases hbit : mc.input_ids &&& bit = 0
  · rw [within_of_unset hm hlt hinput hbit, value_for_of_unset hm hlt hinput hbit hne]
    cases hadd : mc.add_value input bit with
    | none => rfl
    | some after =>
        exact within_of_set ((add_value_module hadd).1.trans hm) hlt hinput (add_value_sets hne hadd)
  · exact within_of_set hm hlt hinput hbit

end Call

-- What a call that returns has found in order.
theorem within_addresses (h : value_for_within calls mc input = some (some (after, found))) :
    ∃ m, mc.module = some m ∧ input.input_id < m.num_inputs ∧ input.input_id.toNat < 16 := by
  induction calls generalizing mc with
  | zero => cases h
  | succ calls ih =>
      obtain ⟨m, hm, hcall⟩ := Option.bind_eq_some_iff.mp h
      split at hcall
      · rename_i hassert
        refine ⟨m, hm, hassert.2, Nat.lt_of_not_le fun hge => ?_⟩
        obtain ⟨bit, hinput, -⟩ := Option.bind_eq_some_iff.mp hcall
        -- the bit of an id above 15 is cut off, so that each call finds it unset
        obtain rfl := inputBit_eq_zero hge hinput
        rw [within_of_unset hm hassert.2 hinput BitVec.and_zero] at h
        obtain ⟨next, -, hnext⟩ := Option.bind_eq_some_iff.mp h
        obtain ⟨-, -, -, hlt⟩ := ih hnext
        exact absurd hlt (Nat.not_lt_of_le hge)
      · cases hcall

-- Without a bound on their number the calls come to the result of the function.
theorem value_for_iff_within : mc.value_for input = some (after, found) ↔
    ∃ calls, value_for_within calls mc input = some (some (after, found)) := by
  constructor
  · intro h
    obtain ⟨m, hm, -⟩ := Option.bind_eq_some_iff.mp h
    obtain ⟨hlt, hid⟩ := value_for_addresses hm h
    exact ⟨2, by rw [within_two hm hlt (inputBit_eq hid) (twoPow_ne_zero hid), h, Option.map_some]⟩
  · rintro ⟨calls, h⟩
    obtain ⟨m, hm, hlt, hid⟩ := within_addresses h
    have htwo := within_two hm hlt (inputBit_eq hid) (twoPow_ne_zero hid)
    match calls with
    | 0 => cases h
    | 1 =>
        by_cases hbit : mc.input_ids &&& BitVec.twoPow 16 input.input_id.toNat = 0
        · rw [within_of_unset hm hlt (inputBit_eq hid) hbit] at h
          obtain ⟨_, -, h⟩ := Option.bind_eq_some_iff.mp h
          cases h
        · rw [within_of_set hm hlt (inputBit_eq hid) hbit] at h
          simpa using h
    | calls + 2 =>
        rw [htwo calls] at h
        simpa using h

-- With an id from 16 to 31 every call adds a value and makes another one.
theorem within_unfinished (hm : mc.module = some m) (hholds : mc.values.Holds pairs)
    (halive : ∀ pair ∈ pairs, pair.input ≠ none) (hlt : input.input_id < m.num_inputs)
    (hid : 16 ≤ input.input_id.toNat) (hshift : input.input_id.toNat < 32) (calls : Nat) :
    value_for_within calls mc input = some none := by
  have hinput : inputBit input.input_id = some 0 := by
    rw [inputBit, if_pos hshift, twoPow_eq_zero hid]
  induction calls generalizing mc pairs with
  | zero => rfl
  | succ calls ih =>
      obtain ⟨after, pairs', hadd, hadded⟩ := add_value_eq hholds (.inr halive) input 0
      have hlive := hadded.live hm halive
      rw [within_of_unset hm hlt hinput BitVec.and_zero, hadd]
      exact ih hlive.module_eq hlive.holds hlive.alive

section Followed

variable (hm : mc.module = some m) (hholds : mc.values.Holds pairs)
  (hlt : input.input_id < m.num_inputs) (hid : input.input_id.toNat < 16)

include hm hholds hlt hid

theorem followable_of_value_for (h : mc.value_for input = some (after, found)) :
    mc.Followable input pairs := by
  have hinput := inputBit_eq hid
  unfold Followable
  split
  · rename_i hbit
    rw [value_for_of_set hm hlt hinput (by rw [ne_eq, and_twoPow_eq_zero_iff hid, hbit]; simp),
      hholds.elems, Option.bind_some] at h
    obtain ⟨place, hplace, -⟩ := Option.map_eq_some_iff.mp h
    exact (find_value_iff_leads _).mp ⟨place, hplace⟩
  · rename_i hbit
    have hunset := (and_twoPow_eq_zero_iff hid).mpr (Bool.not_eq_true _ ▸ hbit)
    rw [value_for_of_unset hm hlt hinput hunset (twoPow_ne_zero hid)] at h
    obtain ⟨_, hadd, -⟩ := Option.bind_eq_some_iff.mp h
    exact add_value_alive hholds hadd

-- The bit of the input is set then, and there is at most one value more.
theorem value_for_of_followable (h : mc.Followable input pairs) :
    ∃ after found, mc.value_for input = some (after, found) ∧
      after.input_ids &&& BitVec.twoPow 16 input.input_id.toNat ≠ 0 ∧
      after.values.size ≤ mc.values.size + 1 := by
  have hinput := inputBit_eq hid
  unfold Followable at h
  split at h
  · rename_i hbit
    have hset : mc.input_ids &&& BitVec.twoPow 16 input.input_id.toNat ≠ 0 := by
      rw [ne_eq, and_twoPow_eq_zero_iff hid, hbit]
      simp
    obtain ⟨found, hfound⟩ := (find_value_iff_leads _).mpr h
    refine ⟨mc, found, ?_, hset, Nat.le_succ _⟩
    rw [value_for_of_set hm hlt hinput hset, hholds.elems, Option.bind_some, hfound]
    rfl
  · rename_i hbit
    have halive : ∀ pair ∈ pairs, pair.input ≠ none := by
      rcases h with rfl | halive
      · exact fun pair hpair => absurd hpair List.not_mem_nil
      · exact halive
    obtain ⟨after, pairs', i, hvalue, hadded, -⟩ := Live.value_for_unset ⟨hm, hholds, halive⟩ hlt hid
      (Bool.not_eq_true _ ▸ hbit)
    refine ⟨after, some i, hvalue, ?_, ?_⟩
    · rw [ne_eq, and_twoPow_eq_zero_iff hid, hadded.input_ids_eq, getLsbD_or_twoPow hid]
      simp
    · rw [hadded.holds.size_eq, hholds.size_eq, hadded.perm.length_eq, List.length_cons]

end Followed

theorem ends_iff (hm : mc.module = some m) (hholds : mc.values.Holds pairs)
    (hlt : input.input_id < m.num_inputs) :
    mc.Ends input ↔ input.input_id.toNat < 16 ∧ mc.Followable input pairs := by
  constructor
  · rintro ⟨after, found, hcalls, -, -⟩
    obtain ⟨-, -, -, hid⟩ := within_addresses (hcalls 2 (Nat.le_refl 2))
    have hvalue := value_for_iff_within.mpr ⟨2, hcalls 2 (Nat.le_refl 2)⟩
    exact ⟨hid, followable_of_value_for hm hholds hlt hid hvalue⟩
  · rintro ⟨hid, hfollow⟩
    obtain ⟨after, found, hvalue, hset, hsize⟩ := value_for_of_followable hm hholds hlt hid hfollow
    refine ⟨after, found, fun calls hcalls => ?_, ⟨_, inputBit_eq hid, hset⟩, hsize⟩
    obtain ⟨calls, rfl⟩ := Nat.exists_eq_add_of_le' hcalls
    rw [within_two hm hlt (inputBit_eq hid) (twoPow_ne_zero hid), hvalue, Option.map_some]

-- A module with that many inputs of one byte.
def panel (count : Nat) : Option Module :=
  (List.replicate count (.declare none 0 { DataDeclaration.empty with width := 1 } false)).foldlM
    Module.add_input Module.empty

theorem speed_ends : (forModule Configuration.driveModule).Ends Configuration.speedInput :=
  (ends_iff rfl (live_forModule _).holds (by decide)).mpr
    ⟨by decide, by rw [Followable, if_neg (by decide)]; exact .inl rfl⟩

-- The seventeenth input has no bit in the mask.
def widePanel : Module := (panel 17).get (by decide +kernel)

def seventeenth : ModuleInput := (widePanel.inputs.get 16).get (by decide +kernel)

theorem seventeenth_not_ends : panel 17 = some widePanel ∧
    widePanel.inputs.get 16 = some seventeenth ∧ seventeenth.input_id < widePanel.num_inputs ∧
    ¬(forModule widePanel).Ends seventeenth ∧
    ∀ calls, value_for_within calls (forModule widePanel) seventeenth = some none := by
  have hid : seventeenth.input_id = 16 := by decide +kernel
  have hlt : seventeenth.input_id < widePanel.num_inputs := by decide +kernel
  have hlive := live_forModule widePanel
  refine ⟨(Option.some_get _).symm, (Option.some_get _).symm, hlt, ?_, within_unfinished
    hlive.module_eq hlive.holds hlive.alive hlt (by rw [hid]; decide) (by rw [hid]; decide)⟩
  rintro ⟨after, found, hcalls, -⟩
  obtain ⟨-, -, -, hshort⟩ := within_addresses (hcalls 2 (Nat.le_refl 2))
  rw [hid] at hshort
  exact absurd hshort (by decide)

end ModuleControl

end RoboCrisp.Comms
