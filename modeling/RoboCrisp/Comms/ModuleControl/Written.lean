import RoboCrisp.Comms.ModuleControl.Consistency
import RoboCrisp.Comms.ModuleControl.Live

namespace RoboCrisp.Comms

open RoboCrisp.Stream RoboCrisp.Util

-- What calls of `set` and `clear` leave, clear messages with values among it.

theorem ValuePair.mem_ids {pairs : List ValuePair} {ids : List Nat}
    (hkeys : pairs.map ValuePair.key = ids.map some) {id : Nat} :
    id ∈ ids ↔ ∃ pair ∈ pairs, pair.key = some id := by
  rw [← List.mem_map, hkeys, List.mem_map]
  simp

-- The value after a store of `bytes`.
def DataValue.put (dv : DataValue) (bytes : Bytes) : DataValue :=
  { dv with value := bytes ++ dv.value.drop bytes.length }

def ValuePair.put (pair : ValuePair) (bytes : Bytes) : ValuePair :=
  { pair with value := pair.value.put bytes }

namespace ModuleControl

variable {mc mc' : ModuleControl} {m : Module} {Good : ValuePair → Prop} {ids : List Nat}
  {pairs : List ValuePair} {input : ModuleInput} {key : InputKey}

-- A message for `m` with values for `ids`. Each of them has its bit, and unless the message is
-- clear there are no other bits.
structure Written (Good : ValuePair → Prop) (m : Module) (mc : ModuleControl) (ids : List Nat)
    (pairs : List ValuePair) : Prop where
  module_eq : mc.module = some m
  module_id_eq : mc.module_id = m.id
  holds : mc.values.Holds pairs
  keys : pairs.map ValuePair.key = ids.map some
  ascending : ids.Pairwise (· < ·)
  announced : ∀ id ∈ ids, mc.input_ids.getLsbD id = true
  backed : mc.is_clear = false → ∀ id, mc.input_ids.getLsbD id = true → id ∈ ids
  good : ∀ pair ∈ pairs, Good pair

theorem written_forModule (Good : ValuePair → Prop) (m : Module) : Written Good m (forModule m) [] [] where
  module_eq := rfl
  module_id_eq := rfl
  holds := ((SArray.holds_alloc 0).ensure_capacity _).1
  keys := rfl
  ascending := List.Pairwise.nil
  announced := fun id h => absurd h List.not_mem_nil
  backed := fun _ id h => by simp [forModule] at h
  good := fun pair h => absurd h List.not_mem_nil

-- Without the clear bit, the message carries all of its values.
theorem Written.carries (h : Written Good m mc ids pairs) (hclear : mc.is_clear = false) :
    mc.Carries Good pairs := by
  refine ⟨h.holds, ?_, h.good⟩
  have hids : ids = mc.carried := by
    rw [carried, if_neg (Bool.eq_false_iff.mp hclear)]
    refine eq_of_ascending h.ascending (ascending_setInputs _) fun i => ?_
    rw [mem_setInputs]
    constructor
    · intro hi
      have hbit := h.announced i hi
      have hlt := BitVec.lt_of_getLsbD hbit
      refine ⟨Nat.lt_of_le_of_ne (by omega) ?_, hbit⟩
      rintro rfl
      exact absurd (hbit.symm.trans hclear) (by decide)
    · exact fun hi => h.backed hclear i hi.2
  rw [h.keys, hids]

-- What a lookup finds: the value that is there, or the one that it adds.
inductive Found (mc : ModuleControl) (input : ModuleInput) (pairs : List ValuePair) (old : ValuePair) :
    Prop
  | there (hmem : old ∈ pairs) (hkey : old.key = some input.input_id.toNat)
      (hbit : mc.input_ids.getLsbD input.input_id.toNat = true)
  | added (hnew : old = ⟨some input, .ofType input.data_type⟩)
      (hbit : mc.input_ids.getLsbD input.input_id.toNat = false)

-- A message after a call for an input that has found or added its value.
structure Changed (mc after : ModuleControl) (input : ModuleInput) (ids ids' : List Nat)
    (pairs' : List ValuePair) : Prop where
  module_eq : after.module = mc.module
  module_id_eq : after.module_id = mc.module_id
  input_ids_eq : after.input_ids = mc.input_ids ||| BitVec.twoPow 16 input.input_id.toNat
  holds : after.values.Holds pairs'
  keys : pairs'.map ValuePair.key = ids'.map some
  ascending : ids'.Pairwise (· < ·)
  mem_ids : ∀ id, id ∈ ids' ↔ id ∈ ids ∨ id = input.input_id.toNat

theorem Found.key_eq {old : ValuePair} (h : Found mc input pairs old) :
    old.key = some input.input_id.toNat := by
  cases h with
  | there hmem hkey hbit => exact hkey
  | added hnew hbit =>
      rw [hnew]
      rfl

theorem Written.changed {Good' : ValuePair → Prop} {ids' : List Nat} {pairs' : List ValuePair}
    (h : Written Good m mc ids pairs) (hid : input.input_id.toNat < 16)
    (hchanged : Changed mc mc' input ids ids' pairs') (hgood : ∀ pair ∈ pairs', Good' pair) :
    Written Good' m mc' ids' pairs' where
  module_eq := hchanged.module_eq.trans h.module_eq
  module_id_eq := hchanged.module_id_eq.trans h.module_id_eq
  holds := hchanged.holds
  keys := hchanged.keys
  ascending := hchanged.ascending
  announced id hmem := by
    rw [hchanged.input_ids_eq, getLsbD_or_twoPow hid]
    rcases (hchanged.mem_ids id).mp hmem with hmem | rfl
    · rw [h.announced id hmem, Bool.true_or]
    · rw [decide_eq_true rfl, Bool.or_true]
  backed hclear id hbit := by
    rw [is_clear, hchanged.input_ids_eq, getLsbD_or_twoPow hid, Bool.or_eq_false_iff] at hclear
    rw [hchanged.input_ids_eq, getLsbD_or_twoPow hid, Bool.or_eq_true, decide_eq_true_iff] at hbit
    rw [hchanged.mem_ids]
    rcases hbit with hbit | rfl
    · exact .inl (h.backed hclear.1 id hbit)
    · exact .inr rfl
  good := hgood

section Lookup

variable (h : Written Good m mc ids pairs) (hlt : input.input_id < m.num_inputs)
  (hid : input.input_id.toNat < 16)

include h hlt hid

-- In a clear message, an input whose bit `clear` has set has no value.
theorem Written.value_for_refused (hbit : mc.input_ids.getLsbD input.input_id.toNat = true)
    (hnone : input.input_id.toNat ∉ ids) : mc.value_for input = some (mc, none) := by
  rw [value_for_of_keys_set h.module_eq h.holds h.keys hlt hid hbit, if_neg hnone]

theorem Written.value_for_found
    (hfree : mc.input_ids.getLsbD input.input_id.toNat = true → input.input_id.toNat ∈ ids) :
    ∃ after i ids' pairs' old, mc.value_for input = some (after, some i) ∧ Found mc input pairs old ∧
      pairs'[i]? = some old ∧ Changed mc after input ids ids' pairs' ∧
      (∀ pair, pair ∈ pairs' ↔ pair = old ∨ pair ∈ pairs) ∧
      (mc.input_ids.getLsbD input.input_id.toNat = true → after = mc) := by
  cases hbit : mc.input_ids.getLsbD input.input_id.toNat with
  | true =>
      have hmem := hfree hbit
      obtain ⟨old, hget, hkey⟩ := key_idxOf h.keys hmem
      have hold := List.mem_of_getElem? hget
      refine ⟨mc, _, ids, pairs, old, ?_, .there hold hkey hbit, hget,
        ⟨rfl, rfl, (or_twoPow_of_set hid hbit).symm, h.holds, h.keys, h.ascending, fun id => ?_⟩,
        fun pair => ?_, fun _ => rfl⟩
      · rw [value_for_of_keys_set h.module_eq h.holds h.keys hlt hid hbit, if_pos hmem]
      · exact ⟨.inl, fun hor => hor.elim (fun hid => hid) fun heq => heq ▸ hmem⟩
      · exact ⟨.inr, fun hor => hor.elim (fun heq => heq ▸ hold) fun hpair => hpair⟩
  | false =>
      have hnew : input.input_id.toNat ∉ ids := by
        intro hmem
        exact absurd ((h.announced _ hmem).symm.trans hbit) (by decide)
      let ids' := (List.range 16).filter fun i => decide (i ∈ ids ∨ i = input.input_id.toNat)
      have hmem : ∀ i, i ∈ ids' ↔ i ∈ ids ∨ i = input.input_id.toNat := by
        intro i
        rw [List.mem_filter, List.mem_range, decide_eq_true_iff, and_iff_right_iff_imp]
        rintro (hi | rfl)
        · exact BitVec.lt_of_getLsbD (h.announced i hi)
        · exact hid
      obtain ⟨values, pairs', hvalue, hholds, hkeys, hperm⟩ := value_for_of_keys_unset h.module_eq
        h.holds h.keys h.ascending hnew (ascending_filter_range 16 _) hmem hlt hid hbit
      have hpairs : ∀ pair, pair ∈ pairs' ↔
          pair = ⟨some input, .ofType input.data_type⟩ ∨ pair ∈ pairs := by
        intro pair
        rw [hperm.mem_iff, List.mem_append, List.mem_singleton, or_comm]
      obtain ⟨old, hget, hkey⟩ := key_idxOf hkeys ((hmem _).mpr (.inr rfl))
      obtain rfl : old = ⟨some input, .ofType input.data_type⟩ :=
        ValuePair.eq_of_key hkeys (ascending_filter_range 16 _) (List.mem_of_getElem? hget)
          ((hpairs _).mpr (.inl rfl)) hkey
      exact ⟨_, _, ids', pairs', _, hvalue, .added rfl hbit, hget,
        ⟨rfl, rfl, rfl, hholds, hkeys, ascending_filter_range 16 _, hmem⟩, hpairs, nofun⟩

end Lookup

section Set

variable (h : Written Good m mc ids pairs) (hlt : input.input_id < m.num_inputs)
  (hid : input.input_id.toNat < 16) (hkey : mc.resolve key = some (some input)) (value : Bytes)

include h hlt hid hkey

theorem Written.set_refused (hbit : mc.input_ids.getLsbD input.input_id.toNat = true)
    (hnone : input.input_id.toNat ∉ ids) : mc.set key value = some mc := by
  simp only [ModuleControl.set, value_of, hkey, h.value_for_refused hlt hid hbit hnone,
    Option.bind_eq_bind, Option.bind_some]
  rfl

-- The block of the value decides whether there is room for what is set.
theorem Written.set_found
    (hfree : mc.input_ids.getLsbD input.input_id.toNat = true → input.input_id.toNat ∈ ids) :
    ∃ old, Found mc input pairs old ∧
      (old.value.value.length < value.length → mc.set key value = none) ∧
      (value.length ≤ old.value.value.length → ∃ mc' ids' pairs', mc.set key value = some mc' ∧
        Changed mc mc' input ids ids' pairs' ∧ ∀ pair, pair ∈ pairs' ↔
          pair = old.put value ∨ pair ∈ pairs ∧ pair.key ≠ some input.input_id.toNat) := by
  obtain ⟨after, i, ids', pairs', old, hvalue, hfound, hget, hchanged, hmem, -⟩ :=
    h.value_for_found hlt hid hfree
  have hrun : mc.set key value = (old.value.set value).bind fun dv =>
      (after.values.modify i fun pair => { pair with value := dv }).bind fun values =>
        some { after with values } := by
    simp only [ModuleControl.set, value_of, hkey, hvalue, hchanged.holds.get, hget,
      Option.bind_eq_bind, Option.bind_some]
    rfl
  refine ⟨old, hfound, fun hshort => ?_, fun hroom => ?_⟩
  · rw [hrun, DataValue.set, if_neg (by omega)]
    rfl
  · have hi := (List.getElem?_eq_some_iff.mp hget).1
    have hold : pairs'[i] = old := (List.getElem?_eq_some_iff.mp hget).2
    obtain ⟨values, hmodify, hholds⟩ :=
      hchanged.holds.modify hi fun pair => { pair with value := old.value.put value }
    have hput : ({ pairs'[i] with value := old.value.put value } : ValuePair) = old.put value := by
      rw [hold, ValuePair.put]
    rw [hput] at hholds
    have hkeys : (pairs'.set i (old.put value)).map ValuePair.key = pairs'.map ValuePair.key :=
      SArray.map_set_of_eq hi (by rw [hold]; rfl)
    refine ⟨{ after with values }, ids', pairs'.set i (old.put value), ?_, ⟨hchanged.module_eq,
      hchanged.module_id_eq, hchanged.input_ids_eq, hholds, hkeys.trans hchanged.keys,
      hchanged.ascending, hchanged.mem_ids⟩, fun pair => ?_⟩
    · rw [hrun, DataValue.set, if_pos hroom, Option.bind_some]
      exact congrArg (Option.bind · _) hmodify
    · rw [mem_set_iff_of_keys hchanged.keys hchanged.ascending hget, hmem, hfound.key_eq]
      refine or_congr_right (and_congr_left fun hne => or_iff_right ?_)
      rintro rfl
      exact hne hfound.key_eq

end Set

section Runs

variable {ops : List Op}

theorem resolve_of_value_of {found : ModuleControl × Option Nat} (hm : mc.module = some m)
    (h : mc.value_of key = some found) :
    (mc.resolve key = some none ∧ found = (mc, none)) ∨ ∃ input, mc.resolve key = some (some input) ∧
      mc.value_for input = some found ∧ input.input_id < m.num_inputs ∧ input.input_id.toNat < 16 := by
  obtain ⟨resolved, hresolve, h⟩ := Option.bind_eq_some_iff.mp h
  cases resolved with
  | none => exact .inl ⟨hresolve, (Option.some.inj h).symm⟩
  | some input => exact .inr ⟨input, hresolve, h, value_for_addresses hm h⟩

-- Nothing happens for a name that the module does not have and for an input that `clear` has reset.
def Refuses (mc : ModuleControl) (ids : List Nat) (key : InputKey) : Prop :=
  mc.resolve key = some none ∨ ∃ input, mc.resolve key = some (some input) ∧
    mc.input_ids.getLsbD input.input_id.toNat = true ∧ input.input_id.toNat ∉ ids

-- What a call of `set` that returns has done.
theorem Written.set_cases (h : Written Good m mc ids pairs) {value : Bytes}
    (hrun : mc.set key value = some mc') :
    (mc.Refuses ids key ∧ mc' = mc) ∨ ∃ input old ids' pairs', mc.resolve key = some (some input) ∧
      input.input_id.toNat < 16 ∧ Found mc input pairs old ∧ value.length ≤ old.value.value.length ∧
      Changed mc mc' input ids ids' pairs' ∧ ∀ pair, pair ∈ pairs' ↔
        pair = old.put value ∨ pair ∈ pairs ∧ pair.key ≠ some input.input_id.toNat := by
  obtain ⟨found, hvalue, -⟩ := Option.bind_eq_some_iff.mp hrun
  obtain ⟨hresolve, -⟩ | ⟨input, hresolve, -, hlt, hid⟩ := resolve_of_value_of h.module_eq hvalue
  · simp only [ModuleControl.set, value_of, hresolve, Option.bind_eq_bind, Option.bind_some] at hrun
    exact .inl ⟨.inl hresolve, (Option.some.inj hrun).symm⟩
  by_cases hrefused : mc.input_ids.getLsbD input.input_id.toNat = true ∧ input.input_id.toNat ∉ ids
  · rw [h.set_refused hlt hid hresolve value hrefused.1 hrefused.2] at hrun
    exact .inl ⟨.inr ⟨input, hresolve, hrefused⟩, (Option.some.inj hrun).symm⟩
  · obtain ⟨old, hfound, hshort, hroom⟩ := h.set_found hlt hid hresolve value
      fun hbit => by_contra fun hnone => hrefused ⟨hbit, hnone⟩
    have hlength : value.length ≤ old.value.value.length := by
      by_contra hlong
      rw [hshort (Nat.lt_of_not_le hlong)] at hrun
      cases hrun
    obtain ⟨after, ids', pairs', hset, hchanged, hmem⟩ := hroom hlength
    obtain rfl := Option.some.inj (hset.symm.trans hrun)
    exact .inr ⟨input, old, ids', pairs', hresolve, hid, hfound, hlength, hchanged, hmem⟩

-- A call of `set` that leaves a good value behind if it had one to begin with, or a call of
-- `clear`.
def Op.Leaves (Good : ValuePair → Prop) (m : Module) : Op → Prop
  | .set key value => ∀ input old, (forModule m).resolve key = some (some input) →
      old.key = some input.input_id.toNat →
      (Good old ∨ old = ⟨some input, .ofType input.data_type⟩) →
      value.length ≤ old.value.value.length → Good (old.put value)
  | .clear _ => True
  | _ => False

theorem Written.set (h : Written Good m mc ids pairs) {value : Bytes}
    (hleaves : (Op.set key value).Leaves Good m) (hrun : mc.set key value = some mc') :
    ∃ ids' pairs', Written Good m mc' ids' pairs' := by
  obtain ⟨-, rfl⟩ | ⟨input, old, ids', pairs', hresolve, hid, hfound, hlength, hchanged, hmem⟩ :=
    h.set_cases hrun
  · exact ⟨ids, pairs, h⟩
  · refine ⟨ids', pairs', h.changed hid hchanged fun pair hpair => ?_⟩
    rcases (hmem pair).mp hpair with rfl | ⟨hpair, -⟩
    · rw [resolve_of_module h.module_eq] at hresolve
      refine hleaves input old hresolve hfound.key_eq ?_ hlength
      cases hfound with
      | there hold _ _ => exact .inl (h.good old hold)
      | added hnew _ => exact .inr hnew
    · exact h.good pair hpair

theorem Written.clear (h : Written Good m mc ids pairs) (hrun : mc.clear key = some mc') :
    Written Good m mc' ids pairs := by
  have hadds : ∀ bits : BitVec 16, Written Good m
      { mc with input_ids := mc.input_ids ||| clearBit ||| bits } ids pairs := by
    intro bits
    refine ⟨h.module_eq, h.module_id_eq, h.holds, h.keys, h.ascending, fun id hmem => ?_,
      fun hclear => ?_, h.good⟩
    · rw [BitVec.getLsbD_or, BitVec.getLsbD_or, h.announced id hmem, Bool.true_or, Bool.true_or]
    · rw [is_clear, BitVec.getLsbD_or, clearBit, getLsbD_or_twoPow (by omega)] at hclear
      simp at hclear
  rw [ModuleControl.clear] at hrun
  split at hrun
  · obtain ⟨resolved, -, hrun⟩ := Option.bind_eq_some_iff.mp hrun
    cases resolved with
    | none =>
        obtain rfl := Option.some.inj hrun
        simpa only [BitVec.or_zero] using hadds 0#16
    | some input =>
        obtain ⟨bit, -, hrun⟩ := Option.bind_eq_some_iff.mp hrun
        obtain rfl := Option.some.inj hrun
        exact hadds bit
  · cases hrun

theorem Written.run {last : ModuleControl} (h : Written Good m mc ids pairs)
    (hops : ∀ op ∈ ops, op.Leaves Good m) (hrun : ops.foldlM Op.run mc = some last) :
    ∃ ids' pairs', Written Good m last ids' pairs' := by
  induction ops generalizing mc ids pairs with
  | nil =>
      obtain rfl := Option.some.inj hrun
      exact ⟨ids, pairs, h⟩
  | cons op ops ih =>
      rw [List.foldlM_cons] at hrun
      obtain ⟨mc', hop, hrest⟩ := Option.bind_eq_some_iff.mp hrun
      have hleaves := hops op List.mem_cons_self
      obtain ⟨ids', pairs', h'⟩ : ∃ ids' pairs', Written Good m mc' ids' pairs' := by
        cases op with
        | set key value => exact h.set hleaves hop
        | clear key => exact ⟨ids, pairs, h.clear hop⟩
        | get key size => exact hleaves.elim
        | value_for key => exact hleaves.elim
        | reset m => exact hleaves.elim
      exact ih h' (fun op hop => hops op (List.mem_cons_of_mem _ hop)) hrest

end Runs

end ModuleControl

end RoboCrisp.Comms
