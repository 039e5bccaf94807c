import RoboCrisp.Comms.ModuleControl.Consistency

namespace RoboCrisp.Comms

open RoboCrisp.Stream RoboCrisp.Util

-- Two arrays that hold the same elements, whatever room they have left.
def Shares {α : Type} (first second : SArray α) : Prop :=
  ∃ elements, first.Holds elements ∧ second.Holds elements

section Shares

variable {α : Type} {first second : SArray α}

theorem Shares.push (h : Shares first second) (v : α) :
    Option.Rel Shares (first.push v) (second.push v) := by
  obtain ⟨elements, hfirst, hsecond⟩ := h
  obtain ⟨first', hpush, hholds⟩ := hfirst.push v
  obtain ⟨second', hpush', hholds'⟩ := hsecond.push v
  rw [hpush, hpush']
  exact .some ⟨_, hholds, hholds'⟩

theorem Shares.elems (h : Shares first second) : first.elems = second.elems := by
  obtain ⟨elements, hfirst, hsecond⟩ := h
  rw [hfirst.elems, hsecond.elems]

theorem Shares.get (h : Shares first second) (n : Nat) : first.get n = second.get n := by
  obtain ⟨elements, hfirst, hsecond⟩ := h
  rw [hfirst.get, hsecond.get]

theorem Shares.modify (h : Shares first second) (n : Nat) (f : α → α) :
    Option.Rel Shares (first.modify n f) (second.modify n f) := by
  obtain ⟨elements, hfirst, hsecond⟩ := h
  by_cases hn : n < elements.length
  · obtain ⟨first', hmodify, hholds⟩ := hfirst.modify hn f
    obtain ⟨second', hmodify', hholds'⟩ := hsecond.modify hn f
    rw [hmodify, hmodify']
    exact .some ⟨_, hholds, hholds'⟩
  · have hnone : ∀ array : SArray α, array.Holds elements → array.modify n f = none := by
      intro array hholds
      have hget := hholds.get n
      rw [List.getElem?_eq_none (Nat.le_of_not_lt hn), SArray.get] at hget
      cases hdata : array.data with
      | none => simp [SArray.modify, hdata]
      | some cells =>
          rw [hdata, Option.bind_some] at hget
          simp [SArray.modify, hdata, hget]
    rw [hnone first hfirst, hnone second hsecond]
    exact .none

theorem Shares.sort_values {first second : SArray ValuePair} (h : Shares first second) :
    Option.Rel Shares (ModuleControl.sort_values first) (ModuleControl.sort_values second) := by
  have helems := h.elems
  obtain ⟨pairs, hfirst, hsecond⟩ := h
  obtain ⟨first', hsort, hholds⟩ := hfirst.sort fun a b => decide (a.input_id ≤ b.input_id)
  obtain ⟨second', hsort', hholds'⟩ := hsecond.sort fun a b => decide (a.input_id ≤ b.input_id)
  rw [ModuleControl.sort_values, ModuleControl.sort_values, helems]
  refine rel_bind (rel_of_eq rfl) fun pairs' _ h => ?_
  subst h
  split
  · exact .none
  · rw [hsort, hsort']
    exact .some ⟨_, hholds, hholds'⟩

end Shares

namespace ModuleControl

-- Two messages that differ in the module they name only.
structure Alike (id id' : UInt8) (mc mc' : ModuleControl) : Prop where
  id_eq : mc.module_id = id
  id_eq' : mc'.module_id = id'
  input_ids : mc.input_ids = mc'.input_ids
  module : mc.module = mc'.module
  values : Shares mc.values mc'.values

variable {id id' : UInt8} {mc mc' : ModuleControl}

theorem Alike.get_num_values (h : Alike id id' mc mc') : mc.get_num_values = mc'.get_num_values := by
  rw [ModuleControl.get_num_values, ModuleControl.get_num_values, is_clear, is_clear, h.input_ids]

theorem Alike.resolve (h : Alike id id' mc mc') (key : InputKey) : mc.resolve key = mc'.resolve key := by
  cases key with
  | name name => rw [ModuleControl.resolve, ModuleControl.resolve, h.module]
  | input input => rfl

theorem Alike.add_value (h : Alike id id' mc mc') (input : ModuleInput) (bit : BitVec 16) :
    Option.Rel (Alike id id') (mc.add_value input bit) (mc'.add_value input bit) := by
  refine rel_bind (h.values.push _) fun pushed pushed' hpushed => ?_
  refine rel_bind hpushed.sort_values fun values values' hvalues => ?_
  exact .some ⟨h.id_eq, h.id_eq', by rw [h.input_ids], h.module, hvalues⟩

-- A lookup finds the value at the same place in both.
def Alike.Found (id id' : UInt8) (found found' : ModuleControl × Option Nat) : Prop :=
  Alike id id' found.1 found'.1 ∧ found.2 = found'.2

theorem Alike.value_for (h : Alike id id' mc mc') (input : ModuleInput) :
    Option.Rel (Alike.Found id id') (mc.value_for input) (mc'.value_for input) := by
  rw [ModuleControl.value_for, ModuleControl.value_for, h.module, h.get_num_values]
  refine rel_bind (rel_of_eq rfl) fun m _ hm => ?_
  subst hm
  split
  · refine rel_bind (rel_of_eq rfl) fun bit _ hbit => ?_
    subst hbit
    have hlookup : ∀ after after' : ModuleControl, Alike id id' after after' →
        Option.Rel (Alike.Found id id')
          (if after.input_ids &&& bit = 0 then none else do
            let pairs ← after.values.elems
            let found ← find_value input.input_id pairs
            return (after, found))
          (if after'.input_ids &&& bit = 0 then none else do
            let pairs ← after'.values.elems
            let found ← find_value input.input_id pairs
            return (after', found)) := by
      intro after after' hafter
      rw [hafter.input_ids, hafter.values.elems]
      split
      · exact .none
      · refine rel_bind (rel_of_eq rfl) fun pairs _ hpairs => ?_
        subst hpairs
        refine rel_bind (rel_of_eq rfl) fun found _ hfound => ?_
        subst hfound
        exact .some ⟨hafter, rfl⟩
    by_cases hunset : mc'.input_ids &&& bit = 0
    · rw [h.input_ids, if_pos hunset, if_pos hunset]
      exact rel_bind (h.add_value input bit) hlookup
    · rw [h.input_ids, if_neg hunset, if_neg hunset]
      exact hlookup mc mc' h
  · exact .none

theorem Alike.value_of (h : Alike id id' mc mc') (key : InputKey) :
    Option.Rel (Alike.Found id id') (mc.value_of key) (mc'.value_of key) := by
  rw [ModuleControl.value_of, ModuleControl.value_of, h.resolve]
  refine rel_bind (rel_of_eq rfl) fun found _ hfound => ?_
  subst hfound
  cases found with
  | none => exact .some ⟨h, rfl⟩
  | some input => exact h.value_for input

theorem Alike.set (h : Alike id id' mc mc') (key : InputKey) (value : Bytes) :
    Option.Rel (Alike id id') (mc.set key value) (mc'.set key value) := by
  refine rel_bind (h.value_of key) ?_
  rintro ⟨after, dv⟩ ⟨after', _⟩ ⟨hafter, rfl⟩
  cases dv with
  | none => exact .some hafter
  | some i =>
      refine rel_bind (rel_of_eq (hafter.values.get i)) fun pair _ hpair => ?_
      subst hpair
      refine rel_bind (rel_of_eq rfl) fun dv _ hdv => ?_
      subst hdv
      refine rel_bind (hafter.values.modify i _) fun values values' hvalues => ?_
      exact .some ⟨hafter.id_eq, hafter.id_eq', hafter.input_ids, hafter.module, hvalues⟩

theorem Alike.clear (h : Alike id id' mc mc') (key : InputKey) :
    Option.Rel (Alike id id') (mc.clear key) (mc'.clear key) := by
  have hmasked : Alike id id' { mc with input_ids := mc.input_ids ||| clearBit }
      { mc' with input_ids := mc'.input_ids ||| clearBit } :=
    ⟨h.id_eq, h.id_eq', by rw [h.input_ids], h.module, h.values⟩
  rw [ModuleControl.clear, ModuleControl.clear, h.get_num_values]
  split
  · refine rel_bind (rel_of_eq (hmasked.resolve key)) fun found _ hfound => ?_
    subst hfound
    cases found with
    | none => exact .some hmasked
    | some input =>
        refine rel_bind (rel_of_eq rfl) fun bit _ hbit => ?_
        subst hbit
        exact .some ⟨h.id_eq, h.id_eq', by rw [h.input_ids], h.module, h.values⟩
  · exact .none

-- The two messages start with the same bytes, and go into any buffer in the same way.
def SendsSame (mc mc' : ModuleControl) : Prop :=
  mc.header = mc'.header ∧ ∀ buf, mc.encode buf = mc'.encode buf

theorem encode_values_congr {values values' : SArray ValuePair}
    (h : ∀ i, values.get i = values'.get i) (ids : List Nat) :
    encode_values values ids = encode_values values' ids := by
  induction ids with
  | nil => rfl
  | cons i ids ih => rw [encode_values, encode_values, h, ih]

theorem sendsSame_iff (hids : mc.input_ids = mc'.input_ids)
    (hvalues : encode_values mc.values (List.range mc.get_num_values) =
      encode_values mc'.values (List.range mc.get_num_values)) :
    mc.SendsSame mc' ↔ mc.module_id = mc'.module_id := by
  constructor
  · rintro ⟨hheader, -⟩
    exact (List.cons.inj hheader).1
  · intro hid
    have hheader : mc.header = mc'.header := by rw [header, header, hid, hids]
    refine ⟨hheader, fun buf => ?_⟩
    have hnum : mc.get_num_values = mc'.get_num_values := by
      rw [ModuleControl.get_num_values, ModuleControl.get_num_values, is_clear, is_clear, hids]
    have hclear : mc.is_clear = mc'.is_clear := by rw [is_clear, is_clear, hids]
    rw [encode, encode, hheader, ← hclear, ← hnum, hvalues]

theorem Alike.sendsSame_iff (h : Alike id id' mc mc') : mc.SendsSame mc' ↔ id = id' := by
  rw [ModuleControl.sendsSame_iff h.input_ids (encode_values_congr h.values.get _), h.id_eq, h.id_eq']

section MovedFrom

variable {m : Module} {values : SArray ValuePair}

-- The bits that a `clear` adds.
def clearedIds (m : Module) (input_ids : BitVec 16) (key : InputKey) : BitVec 16 :=
  match (forModule m).resolve key with
  | some (some input) => input_ids ||| clearBit ||| BitVec.twoPow 16 input.input_id.toNat
  | _ => input_ids ||| clearBit

-- No `set` gets at the values: it names nothing that the module has, or the array is
-- empty and a `clear` has set the bit of the input.
def Untouched (m : Module) (size : Nat) : BitVec 16 → List Op → Prop
  | _, [] => True
  | input_ids, .set key _ :: ops => (∀ input, (forModule m).resolve key = some (some input) →
      size = 0 ∧ input_ids.getLsbD input.input_id.toNat = true) ∧ Untouched m size input_ids ops
  | input_ids, .clear key :: ops => Untouched m size (clearedIds m input_ids key) ops
  | input_ids, _ :: ops => Untouched m size input_ids ops

-- A message whose array has lost its memory, beside a new one that has no values either.
structure Emptied (m : Module) (values : SArray ValuePair) (mc mc' : ModuleControl) : Prop where
  id_eq : mc.module_id = 0
  id_eq' : mc'.module_id = m.id
  input_ids : mc.input_ids = mc'.input_ids
  module : mc.module = some m
  module' : mc'.module = some m
  values : mc.values = values
  values' : mc'.values.Holds []
  idle : mc.get_num_values = 0

theorem and_twoPow_ne_zero {input_ids : BitVec 16} {i : Nat} :
    input_ids &&& BitVec.twoPow 16 i ≠ 0 ↔ input_ids.getLsbD i = true := by
  by_cases hi : i < 16
  · rw [ne_eq, and_twoPow_eq_zero_iff hi, Bool.not_eq_false]
  · have hzero : BitVec.twoPow 16 i = 0 := by
      apply BitVec.eq_of_getLsbD_eq
      intro j hj
      rw [BitVec.getLsbD_twoPow]
      simp
      omega
    rw [hzero, BitVec.getLsbD_of_ge _ _ (Nat.le_of_not_lt hi)]
    simp

-- The store of a new value runs into the lost memory, now or when the values are sorted.
theorem add_value_eq_none (hdata : mc.values.data = none) (hcap : 0 < mc.values.capacity)
    (hsize : mc.values.size ≤ mc.values.capacity) (input : ModuleInput) (bit : BitVec 16) :
    mc.add_value input bit = none := by
  rw [ModuleControl.add_value]
  cases hpush : mc.values.push ⟨some input, .ofType input.data_type⟩ with
  | none => rfl
  | some pushed =>
      have hpos : 0 < mc.values.size := by
        by_contra hzero
        rw [SArray.push_eq_none hdata (by omega)] at hpush
        exact absurd hpush (by simp)
      simp only [Option.bind_eq_bind, Option.bind_some, sort_values,
        SArray.elems_push_eq_none hdata hpos hpush, Option.bind_none]

theorem Emptied.value_for (h : Emptied m values mc mc') (hdata : values.data = none)
    (hcap : 0 < values.capacity) (hsize : values.size ≤ values.capacity) {input : ModuleInput}
    {found' : ModuleControl × Option Nat} (hrun : mc'.value_for input = some found') :
    (values.size = 0 ∧ mc.input_ids.getLsbD input.input_id.toNat = true ∧
        mc.value_for input = some (mc, none) ∧ found' = (mc', none)) ∨
      (¬(values.size = 0 ∧ mc.input_ids.getLsbD input.input_id.toNat = true) ∧
        mc.value_for input = none) := by
  have hnum : mc'.get_num_values = mc.get_num_values := by
    rw [ModuleControl.get_num_values, ModuleControl.get_num_values, is_clear, is_clear, h.input_ids]
  rw [ModuleControl.value_for, h.module', Option.bind_eq_bind, Option.bind_some, hnum,
    ← h.input_ids] at hrun
  rw [ModuleControl.value_for, h.module, Option.bind_eq_bind, Option.bind_some]
  by_cases hassert : mc.get_num_values ≤ Module.MAX_INPUTS ∧ input.input_id < m.num_inputs
  · rw [if_pos hassert] at hrun ⊢
    obtain ⟨bit, hbit, hrun⟩ := Option.bind_eq_some_iff.mp hrun
    obtain ⟨-, htwoPow⟩ := Option.ite_none_right_eq_some.mp hbit
    have hset : mc.input_ids &&& bit ≠ 0 ↔ mc.input_ids.getLsbD input.input_id.toNat = true := by
      rw [← Option.some.inj htwoPow]
      exact and_twoPow_ne_zero
    rw [hbit, Option.bind_eq_bind, Option.bind_some]
    by_cases hunset : mc.input_ids &&& bit = 0
    · right
      refine ⟨fun hc => hset.mpr hc.2 hunset, ?_⟩
      rw [if_pos hunset, add_value_eq_none (by rwa [h.values]) (by rwa [h.values])
        (by rwa [h.values])]
      rfl
    · rw [if_neg hunset] at hrun ⊢
      have hrun : (if mc'.input_ids &&& bit = 0 then none else do
          let pairs ← mc'.values.elems
          let found ← find_value input.input_id pairs
          return (mc', found)) = some found' := hrun
      rw [← h.input_ids, if_neg hunset, h.values'.elems] at hrun
      obtain rfl := Option.some.inj hrun
      have hlookup : (do
          let mc ← some mc
          if mc.input_ids &&& bit = 0 then none else do
            let pairs ← mc.values.elems
            let found ← find_value input.input_id pairs
            return (mc, found)) = (do
          let pairs ← values.elems
          let found ← find_value input.input_id pairs
          return (mc, found)) := by
        rw [Option.bind_eq_bind, Option.bind_some, if_neg hunset, h.values]
      by_cases hzero : values.size = 0
      · refine .inl ⟨hzero, hset.mp hunset, hlookup.trans ?_, rfl⟩
        have helems : values.elems = some [] := by simp [SArray.elems, hdata, hzero]
        rw [helems]
        rfl
      · refine .inr ⟨fun hc => hzero hc.1, hlookup.trans ?_⟩
        have helems : values.elems = none := by simp [SArray.elems, hdata, hzero]
        rw [helems]
        rfl
  · rw [if_neg hassert] at hrun
    exact absurd hrun (by simp)

theorem Emptied.set (h : Emptied m values mc mc') (hdata : values.data = none)
    (hcap : 0 < values.capacity) (hsize : values.size ≤ values.capacity) {key : InputKey}
    {value : Bytes} {after' : ModuleControl} (hrun : mc'.set key value = some after') :
    let Idle := ∀ input, (forModule m).resolve key = some (some input) →
      values.size = 0 ∧ mc.input_ids.getLsbD input.input_id.toNat = true
    (Idle ∧ mc.set key value = some mc ∧ after' = mc') ∨ (¬Idle ∧ mc.set key value = none) := by
  intro Idle
  obtain ⟨found', hvalue, hrun⟩ := Option.bind_eq_some_iff.mp hrun
  obtain ⟨named, hresolve, hvalue⟩ := Option.bind_eq_some_iff.mp hvalue
  rw [resolve_of_module h.module'] at hresolve
  have hown : mc.resolve key = some named := (resolve_of_module h.module key).trans hresolve
  cases named with
  | none =>
      obtain rfl := Option.some.inj hvalue
      obtain rfl := Option.some.inj hrun
      refine .inl ⟨fun input hinput => absurd (hresolve.symm.trans hinput) (by simp), ?_, rfl⟩
      simp [ModuleControl.set, value_of, hown]
  | some input =>
      have hidle : Idle ↔
          values.size = 0 ∧ mc.input_ids.getLsbD input.input_id.toNat = true := by
        constructor
        · exact fun h => h input hresolve
        · intro h input' hinput'
          obtain rfl := Option.some.inj (Option.some.inj (hresolve.symm.trans hinput'))
          exact h
      obtain ⟨hzero, hset, hsame, rfl⟩ | ⟨hnot, hnone⟩ := h.value_for hdata hcap hsize hvalue
      · obtain rfl := Option.some.inj hrun
        refine .inl ⟨hidle.mpr ⟨hzero, hset⟩, ?_, rfl⟩
        simp [ModuleControl.set, value_of, hown, hsame]
      · refine .inr ⟨mt hidle.mp hnot, ?_⟩
        simp [ModuleControl.set, value_of, hown, hnone]

theorem Emptied.clear (h : Emptied m values mc mc') {key : InputKey} {after' : ModuleControl}
    (hrun : mc'.clear key = some after') :
    ∃ after, mc.clear key = some after ∧ Emptied m values after after' ∧
      after.input_ids = clearedIds m mc.input_ids key := by
  have hnum : mc'.get_num_values = 0 := by
    rw [← h.idle, ModuleControl.get_num_values, ModuleControl.get_num_values, is_clear, is_clear,
      h.input_ids]
  have hnil : mc'.carried = [] := List.length_eq_zero_iff.mp ((length_carried mc').trans hnum)
  have hany : mc'.Carries (fun _ => True) [] :=
    ⟨h.values', by rw [hnil]; rfl, fun _ _ => trivial⟩
  obtain ⟨hmodule, hid, hholds, hclear⟩ := clear_after hany hrun
  have hafter : ∀ after : ModuleControl, after.input_ids = after'.input_ids →
      after.module_id = mc.module_id → after.module = mc.module → after.values = mc.values →
      Emptied m values after after' := by
    intro after hids hid' hmodule' hvalues
    refine ⟨hid'.trans h.id_eq, hid.trans h.id_eq', hids, hmodule'.trans h.module,
      hmodule.trans h.module', hvalues.trans h.values, hholds, ?_⟩
    rw [ModuleControl.get_num_values, is_clear, hids]
    exact if_pos hclear
  rw [ModuleControl.clear, if_pos hnum] at hrun
  rw [ModuleControl.clear, if_pos h.idle]
  obtain ⟨named, hresolve, hrun⟩ := Option.bind_eq_some_iff.mp hrun
  rw [resolve_of_module (show ({ mc' with input_ids := mc'.input_ids ||| clearBit } :
    ModuleControl).module = some m from h.module')] at hresolve
  have hown : ({ mc with input_ids := mc.input_ids ||| clearBit } : ModuleControl).resolve key =
      some named := (resolve_of_module h.module key).trans hresolve
  simp only [hown, Option.bind_eq_bind, Option.bind_some, clearedIds, hresolve]
  cases named with
  | none =>
      obtain rfl := Option.some.inj hrun
      exact ⟨_, rfl, hafter _ (by rw [h.input_ids]) rfl rfl rfl, rfl⟩
  | some input =>
      obtain ⟨bit, hbit, hrun⟩ := Option.bind_eq_some_iff.mp hrun
      obtain rfl := Option.some.inj hrun
      obtain ⟨-, htwoPow⟩ := Option.ite_none_right_eq_some.mp hbit
      refine ⟨{ mc with input_ids := mc.input_ids ||| clearBit ||| bit }, ?_,
        hafter _ (by rw [h.input_ids]) rfl rfl rfl, by rw [← Option.some.inj htwoPow]⟩
      simp only [hbit, Option.bind_some, Option.pure_def]

theorem Emptied.sendsSame_iff (h : Emptied m values mc mc') : mc.SendsSame mc' ↔ m.id = 0 := by
  rw [ModuleControl.sendsSame_iff h.input_ids (by rw [h.idle]; rfl), h.id_eq, h.id_eq', eq_comm]

end MovedFrom

theorem Emptied.run_iff {m : Module} {values : SArray ValuePair} (h : Emptied m values mc mc')
    (hdata : values.data = none) (hcap : 0 < values.capacity)
    (hsize : values.size ≤ values.capacity) {ops : List Op} (hops : ∀ op ∈ ops, op.Fills)
    {last' : ModuleControl} (hrun : ops.foldlM Op.run mc' = some last') :
    (∃ last, ops.foldlM Op.run mc = some last ∧ Emptied m values last last') ∧
        Untouched m values.size mc.input_ids ops ∨
      ops.foldlM Op.run mc = none ∧ ¬Untouched m values.size mc.input_ids ops := by
  induction ops generalizing mc mc' with
  | nil =>
      obtain rfl := Option.some.inj hrun
      exact .inl ⟨⟨mc, rfl, h⟩, trivial⟩
  | cons op ops ih =>
      rw [List.foldlM_cons] at hrun
      obtain ⟨after', hop, hrest⟩ := Option.bind_eq_some_iff.mp hrun
      have hops' : ∀ op ∈ ops, op.Fills := fun op hmem => hops op (List.mem_cons_of_mem _ hmem)
      rw [List.foldlM_cons]
      cases op with
      | set key value =>
          obtain ⟨hidle, hset, rfl⟩ | ⟨hbusy, hset⟩ := h.set hdata hcap hsize hop
          · have hrun : Op.run mc (.set key value) = some mc := hset
            rw [hrun]
            obtain ⟨hlast, htail⟩ | ⟨hnone, htail⟩ := ih h hops' hrest
            · exact .inl ⟨hlast, hidle, htail⟩
            · exact .inr ⟨hnone, fun hc => htail hc.2⟩
          · have hrun : Op.run mc (.set key value) = none := hset
            rw [hrun]
            exact .inr ⟨rfl, fun hc => hbusy hc.1⟩
      | clear key =>
          obtain ⟨after, hclear, hafter, hids⟩ := h.clear hop
          have hrun : Op.run mc (.clear key) = some after := hclear
          rw [hrun, Untouched, ← hids]
          exact ih hafter hops' hrest
      | get key size => exact (hops _ List.mem_cons_self).elim
      | value_for key => exact (hops _ List.mem_cons_self).elim
      | reset m => exact (hops _ List.mem_cons_self).elim

theorem Alike.run (h : Alike id id' mc mc') {ops : List Op} (hops : ∀ op ∈ ops, op.Fills) :
    Option.Rel (Alike id id') (ops.foldlM Op.run mc) (ops.foldlM Op.run mc') := by
  refine rel_foldlM (fun mc mc' h op hop => ?_) h
  cases op with
  | set key value => exact h.set key value
  | clear key => exact h.clear key
  | get key size => exact (hops _ hop).elim
  | value_for key => exact (hops _ hop).elim
  | reset m => exact (hops _ hop).elim

section Reset

variable {m : Module} {ops : List Op} {fresh : ModuleControl}

theorem reset_owned_iff {old : List ValuePair} (hold : mc.values.Holds old)
    (hops : ∀ op ∈ ops, op.Fills) (hfresh : ops.foldlM Op.run (forModule m) = some fresh) :
    (∃ last, ops.foldlM Op.run (mc.reset (some m)) = some last ∧ last.SendsSame fresh) ↔
      m.id = 0 := by
  have halike : Alike 0 m.id (mc.reset (some m)) (forModule m) :=
    ⟨rfl, rfl, rfl, rfl, [], hold.clear, ((SArray.holds_alloc 0).ensure_capacity _).1⟩
  have hrun := halike.run hops
  rw [hfresh] at hrun
  cases hlast : ops.foldlM Op.run (mc.reset (some m)) with
  | none =>
      rw [hlast] at hrun
      nomatch hrun
  | some last =>
      rw [hlast] at hrun
      cases hrun with
      | some h =>
          have hsame := h.sendsSame_iff
          constructor
          · rintro ⟨_, hother, hsends⟩
            rw [← Option.some.inj hother] at hsends
            exact (hsame.mp hsends).symm
          · exact fun hid => ⟨last, rfl, hsame.mpr hid.symm⟩

theorem reset_moved_iff (hdata : mc.values.data = none) (hcap : 0 < mc.values.capacity)
    (hsize : mc.values.size ≤ mc.values.capacity) (hops : ∀ op ∈ ops, op.Fills)
    (hfresh : ops.foldlM Op.run (forModule m) = some fresh) :
    (∃ last, ops.foldlM Op.run (mc.reset (some m)) = some last ∧ last.SendsSame fresh) ↔
      m.id = 0 ∧ Untouched m mc.values.size 0 ops := by
  have hclear : mc.values.clear = mc.values := by rw [SArray.clear, hdata]
  have hempty : Emptied m mc.values (mc.reset (some m)) (forModule m) := by
    refine ⟨rfl, rfl, rfl, rfl, rfl, hclear, ((SArray.holds_alloc 0).ensure_capacity _).1, ?_⟩
    rw [← length_carried, carried_of_zero rfl, List.length_nil]
  obtain ⟨⟨last, hlast, h⟩, huntouched⟩ | ⟨hnone, htouched⟩ :=
    hempty.run_iff hdata hcap hsize hops hfresh
  · have hsame := h.sendsSame_iff
    rw [hlast]
    constructor
    · rintro ⟨_, hother, hsends⟩
      rw [← Option.some.inj hother] at hsends
      exact ⟨hsame.mp hsends, huntouched⟩
    · rintro ⟨hid, -⟩
      exact ⟨last, rfl, hsame.mpr hid⟩
  · rw [hnone]
    constructor
    · rintro ⟨_, hother, -⟩
      exact absurd hother (by simp)
    · rintro ⟨-, huntouched⟩
      exact absurd huntouched htouched

-- Reset names module 0. An array that has lost its memory stays lost, so that nothing
-- can be stored either.
theorem reset_sendsSame_iff {array : SArray ValuePair} {old : List ValuePair}
    (harray : array.Holds old) (hvalues : mc.values = array ∨ mc.values = array.movedFrom)
    (hops : ∀ op ∈ ops, op.Fills) (hfresh : ops.foldlM Op.run (forModule m) = some fresh) :
    (∃ last, ops.foldlM Op.run (mc.reset (some m)) = some last ∧ last.SendsSame fresh) ↔
      m.id = 0 ∧ (mc.values.data = none → 0 < mc.values.capacity →
        Untouched m mc.values.size 0 ops) := by
  have hcases : (∃ old, mc.values.Holds old) ∨
      (mc.values.data = none ∧ 0 < mc.values.capacity ∧ mc.values.size ≤ mc.values.capacity) := by
    obtain hsame | hmoved := hvalues
    · exact .inl ⟨old, by rwa [hsame]⟩
    · rw [hmoved]
      by_cases hcap : array.capacity = 0
      · exact .inl ⟨[], harray.movedFrom hcap⟩
      · exact .inr ⟨rfl, Nat.pos_of_ne_zero hcap, harray.size_le⟩
  obtain ⟨old, hold⟩ | ⟨hdata, hcap, hsize⟩ := hcases
  · rw [reset_owned_iff hold hops hfresh]
    refine ⟨fun hid => ⟨hid, fun hdata hpos => ?_⟩, fun h => h.1⟩
    exact absurd (hold.capacity_of_data hdata) (Nat.ne_of_gt hpos)
  · rw [reset_moved_iff hdata hcap hsize hops hfresh]
    exact ⟨fun h => ⟨h.1, fun _ _ => h.2⟩, fun h => ⟨h.1, h.2 hdata hcap⟩⟩

end Reset

-- The same value for module 0 and for a module behind it.
def setThree : List Op := [.set (.name speedName) [3]]

theorem setThree_fills : ∀ op ∈ setThree, op.Fills := by
  intro op hop
  rw [List.mem_singleton.mp hop]
  trivial

theorem drive_reset_sendsSame_iff :
    (∃ last, setThree.foldlM Op.run (empty.reset (some Configuration.driveModule)) = some last ∧
      last.SendsSame ((setThree.foldlM Op.run (forModule Configuration.driveModule)).get (by decide))) ↔
    Configuration.driveModule.id = 0 ∧ (empty.values.data = none → 0 < empty.values.capacity →
      Untouched Configuration.driveModule empty.values.size 0 setThree) :=
  reset_sendsSame_iff (SArray.holds_alloc 0) (.inl rfl) setThree_fills (Option.some_get _).symm

def fleet : Configuration :=
  ([Configuration.BuildStep.add_module .none, .add_module .none,
    .add_input 1 (some speedName) 0 Configuration.speed false].foldlM
      Configuration.BuildStep.runWithin (Configuration.empty 0)).get (by decide)

def secondModule : Module := (fleet.modules.get 1).get (by decide)

theorem second_reset_not_sendsSame :
    ¬∃ last, setThree.foldlM Op.run (empty.reset (some secondModule)) = some last ∧
      last.SendsSame ((setThree.foldlM Op.run (forModule secondModule)).get (by decide)) := by
  rintro ⟨last, hlast, hheader, -⟩
  have hother : (setThree.foldlM Op.run (empty.reset (some secondModule))).map header ≠
      (setThree.foldlM Op.run (forModule secondModule)).map header := by
    decide
  rw [hlast, Option.map_some, hheader, ← Option.map_some, Option.some_get] at hother
  exact hother rfl

end ModuleControl

end RoboCrisp.Comms
