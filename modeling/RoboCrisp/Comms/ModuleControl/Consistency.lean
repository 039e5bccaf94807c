import RoboCrisp.Comms.ModuleControl.Lemmas
import RoboCrisp.Comms.Configuration.Build

namespace RoboCrisp.Comms

open RoboCrisp.Stream RoboCrisp.Util

namespace ModuleControl

-- The calls that the user of a message makes on it.
inductive Op
  | set (key : InputKey) (value : Bytes)
  | get (key : InputKey) (size : Nat)
  | value_for (key : InputKey)
  | clear (key : InputKey)
  | reset (m : Option Module)

def Op.run (mc : ModuleControl) : Op → Option ModuleControl
  | .set key value => mc.set key value
  | .get key size => mc.get key size
  | .value_for key => do
      let (mc, _) ← mc.value_of key
      return mc
  | .clear key => mc.clear key
  | .reset m => some (mc.reset m)

-- A module with no more inputs than the mask has bits for.
def Fits (m : Option Module) : Prop := ∀ m', m = some m' → m'.num_inputs.toNat ≤ Module.MAX_INPUTS

def Op.Allowed : Op → Prop
  | .reset m => Fits m
  | _ => True

-- The calls between the start of a message and its dispatch.
def Op.Fills : Op → Prop
  | .set _ _ => True
  | .clear _ => True
  | _ => False

-- In every state from `mc` on.
def EveryState (Q : ModuleControl → Prop) : ModuleControl → List Op → Prop
  | mc, [] => Q mc
  | mc, op :: ops => Q mc ∧ ∀ mc', op.run mc = some mc' → EveryState Q mc' ops

-- At every call from `mc` on.
def EveryStep (Ok : ModuleControl → Op → Prop) : ModuleControl → List Op → Prop
  | _, [] => True
  | mc, op :: ops => Ok mc op ∧ ∀ mc', op.run mc = some mc' → EveryStep Ok mc' ops

-- The array, the mask and the count say the same.
def Consistent (mc : ModuleControl) : Prop :=
  ∃ (pairs : List ValuePair) (ids : List Nat), mc.values.elems = some pairs ∧ pairs.map ValuePair.key = ids.map some ∧
    ids.Pairwise (· < ·) ∧
    (mc.is_clear = false → ∀ i, i ∈ ids ↔ i < 15 ∧ mc.input_ids.getLsbD i = true) ∧
    (mc.is_clear = true → pairs = []) ∧ mc.get_num_values = mc.values.size

-- The call names an input that has no bit yet, so that it adds a value.
def Adds (mc : ModuleControl) (key : InputKey) : Prop :=
  ∃ input, mc.resolve key = some (some input) ∧
    mc.input_ids.getLsbD input.input_id.toNat = false

-- A clear message gets no values, and no value is added for the argument of a `get`.
def Keeps (mc : ModuleControl) : Op → Prop
  | .set key _ => ¬(mc.is_clear = true ∧ mc.Adds key)
  | .value_for key => ¬(mc.is_clear = true ∧ mc.Adds key)
  | .get (.name name) _ => ¬(mc.is_clear = true ∧ mc.Adds (.name name))
  | .get (.input input) _ => ¬mc.Adds (.input input)
  | .clear _ => True
  | .reset _ => True

variable {mc mc' : ModuleControl} {pairs : List ValuePair}

theorem consistent_iff (h : mc.values.Holds pairs) :
    mc.Consistent ↔ pairs.map ValuePair.key = mc.carried.map some := by
  constructor
  · rintro ⟨pairs', ids, helems, hkeys, hids, hset, hclear, -⟩
    obtain rfl := Option.some.inj (h.elems.symm.trans helems)
    unfold carried
    split
    · rename_i hc
      rw [hclear hc]
      rfl
    · rename_i hc
      rw [hkeys]
      congr 1
      exact eq_of_ascending hids (ascending_setInputs _) fun i =>
        (hset (Bool.not_eq_true _ ▸ hc) i).trans mem_setInputs.symm
  · intro hkeys
    have hcarries : mc.Carries (fun _ => True) pairs := ⟨h, hkeys, fun _ _ => trivial⟩
    refine ⟨pairs, mc.carried, h.elems, hkeys, mc.ascending_carried, fun hc i => ?_, fun hc => ?_,
      by rw [h.size_eq, hcarries.length_eq]⟩
    · rw [carried, hc]
      exact mem_setInputs
    · rw [carried, if_pos hc] at hkeys
      exact List.map_eq_nil_iff.mp hkeys

-- What value_for leaves: the old message, or one with a value more.
theorem value_of_cases (h : mc.Carries (fun _ => True) pairs) (hfits : Fits mc.module)
    {key : InputKey} {dv : Option Nat} (hrun : mc.value_of key = some (mc', dv)) :
    (¬mc.Adds key ∧ mc' = mc) ∨
      (mc.Adds key ∧ ∃ pairs' i, dv = some i ∧ mc'.values.Holds pairs' ∧
        mc'.input_ids ≠ mc.input_ids ∧ mc'.module = mc.module ∧ mc'.is_clear = mc.is_clear ∧
        (pairs'.map ValuePair.key = mc'.carried.map some ↔ mc.is_clear = false) ∧
        ∃ ids : List Nat, pairs'.map ValuePair.key = ids.map some) := by
  obtain ⟨resolved, hresolve, hrun⟩ := Option.bind_eq_some_iff.mp hrun
  cases resolved with
  | none =>
      obtain ⟨rfl, -⟩ := Prod.mk.inj (Option.some.inj hrun)
      refine .inl ⟨?_, rfl⟩
      rintro ⟨input, hinput, -⟩
      rw [hresolve] at hinput
      simp at hinput
  | some input =>
      have hrun : mc.value_for input = some (mc', dv) := hrun
      obtain ⟨m, hm, hassert⟩ := Option.bind_eq_some_iff.mp hrun
      have hlt : input.input_id < m.num_inputs := by
        by_contra hge
        rw [if_neg fun h => hge h.2] at hassert
        exact absurd hassert (by simp)
      have hnum : m.num_inputs.toNat ≤ 15 := hfits m hm
      have hid : input.input_id.toNat < 15 := by
        have : input.input_id.toNat < m.num_inputs.toNat := hlt
        omega
      cases hbit : mc.input_ids.getLsbD input.input_id.toNat with
      | true =>
          rw [h.value_for_set hm hlt hid hbit] at hrun
          obtain ⟨rfl, -⟩ := Prod.mk.inj (Option.some.inj hrun)
          refine .inl ⟨?_, rfl⟩
          rintro ⟨input', hinput, hunset⟩
          rw [hresolve] at hinput
          obtain rfl := Option.some.inj (Option.some.inj hinput)
          rw [hbit] at hunset
          exact absurd hunset (by simp)
      | false =>
          obtain ⟨values, pairs', i, hvalue, -, hholds, -, hkeys⟩ :=
            h.value_for_unset hm hlt hid hbit trivial
          rw [hvalue] at hrun
          obtain ⟨rfl, rfl⟩ := Prod.mk.inj (Option.some.inj hrun)
          have hclear : (mc.input_ids ||| BitVec.twoPow 16 input.input_id.toNat).getLsbD 15 =
              mc.input_ids.getLsbD 15 := by
            rw [getLsbD_or_twoPow (by omega), decide_eq_false (by omega), Bool.or_false]
          refine .inr ⟨⟨input, hresolve, hbit⟩, pairs', i, rfl, hholds, fun hsame => ?_, rfl, hclear,
            ?_, _, hkeys⟩
          · have hset := congrArg (fun ids => ids.getLsbD input.input_id.toNat) hsame
            simp only [getLsbD_or_twoPow (show input.input_id.toNat < 16 by omega), hbit,
              decide_true, Bool.or_true] at hset
            exact absurd hset (by simp)
          · have hcarried : ∀ values : SArray ValuePair, carried { mc with
                input_ids := mc.input_ids ||| BitVec.twoPow 16 input.input_id.toNat, values } =
                if mc.is_clear then [] else
                  setInputs (mc.input_ids ||| BitVec.twoPow 16 input.input_id.toNat) := by
              intro values
              rw [carried, is_clear, is_clear, hclear]
            rw [hkeys, hcarried]
            generalize setInputs (mc.input_ids ||| BitVec.twoPow 16 input.input_id.toNat) = ids
            cases mc.is_clear with
            | true => simp
            | false => simp

-- A state that differs in the values only, with the same keys.
theorem consistent_iff_of_keys {after : ModuleControl} {pairs' : List ValuePair}
    (hholds : mc'.values.Holds pairs') (hkeys : pairs'.map ValuePair.key = pairs.map ValuePair.key)
    (hids : mc'.input_ids = after.input_ids) :
    mc'.Consistent ↔ pairs.map ValuePair.key = after.carried.map some := by
  rw [consistent_iff hholds, hkeys, carried, carried, is_clear, is_clear, hids]

theorem set_after {after : ModuleControl} {key : InputKey} {value : Bytes} {dv : Option Nat}
    (hvalue : mc.value_of key = some (after, dv)) (hholds : after.values.Holds pairs)
    (hrun : mc.set key value = some mc') :
    mc'.module = after.module ∧ (∃ pairs', mc'.values.Holds pairs') ∧
      (mc'.Consistent ↔ pairs.map ValuePair.key = after.carried.map some) := by
  obtain ⟨_, hvalue', hrun⟩ := Option.bind_eq_some_iff.mp hrun
  obtain rfl := Option.some.inj (hvalue.symm.trans hvalue')
  cases dv with
  | none =>
      obtain rfl := Option.some.inj hrun
      exact ⟨rfl, ⟨pairs, hholds⟩, consistent_iff_of_keys hholds rfl rfl⟩
  | some i =>
      obtain ⟨pair, hget, hrun⟩ := Option.bind_eq_some_iff.mp hrun
      obtain ⟨dv, -, hrun⟩ := Option.bind_eq_some_iff.mp hrun
      obtain ⟨values, hmodify, hrun⟩ := Option.bind_eq_some_iff.mp hrun
      obtain rfl := Option.some.inj hrun
      obtain ⟨hi, hholds'⟩ := hholds.of_modify hmodify
      exact ⟨rfl, ⟨_, hholds'⟩, consistent_iff_of_keys hholds' (SArray.map_set_of_eq hi rfl) rfl⟩

theorem get_after {after : ModuleControl} {key : InputKey} {size : Nat} {dv : Option Nat}
    (hvalue : mc.value_of key = some (after, dv))
    (hsame : (∃ name, key = .name name) ∨ after.input_ids = mc.input_ids)
    (hrun : mc.get key size = some mc') : mc' = after := by
  obtain ⟨_, hvalue', hrun⟩ := Option.bind_eq_some_iff.mp hrun
  obtain rfl := Option.some.inj (hvalue.symm.trans hvalue')
  cases dv with
  | none => exact (Option.some.inj hrun).symm
  | some i =>
      obtain ⟨pair, hget, hrun⟩ := Option.bind_eq_some_iff.mp hrun
      obtain ⟨_, -, hrun⟩ := Option.bind_eq_some_iff.mp hrun
      cases key with
      | name name => exact (Option.some.inj hrun).symm
      | input input =>
          obtain ⟨_, h⟩ | hsame := hsame
          · exact absurd h (by simp)
          · have hrun : (if after.input_ids = mc.input_ids then some after else _) = some mc' := hrun
            rw [if_pos hsame] at hrun
            exact (Option.some.inj hrun).symm

-- The pair that a `get` by input adds is left with a pointer to nothing.
theorem get_dangling {after : ModuleControl} {input : ModuleInput} {size i : Nat}
    (hvalue : mc.value_of (.input input) = some (after, some i)) (hholds : after.values.Holds pairs)
    (hsame : after.input_ids ≠ mc.input_ids) (hrun : mc.get (.input input) size = some mc') :
    mc'.module = after.module ∧ ∃ pairs', mc'.values.Holds pairs' ∧
      ∃ pair ∈ pairs', pair.input = none := by
  obtain ⟨_, hvalue', hrun⟩ := Option.bind_eq_some_iff.mp hrun
  obtain rfl := Option.some.inj (hvalue.symm.trans hvalue')
  obtain ⟨pair, hget, hrun⟩ := Option.bind_eq_some_iff.mp hrun
  obtain ⟨_, -, hrun⟩ := Option.bind_eq_some_iff.mp hrun
  have hrun : (if after.input_ids = mc.input_ids then some after else do
      let values ← after.values.modify i fun pair => { pair with input := none }
      return { after with values }) = some mc' := hrun
  rw [if_neg hsame] at hrun
  obtain ⟨values, hmodify, hrun⟩ := Option.bind_eq_some_iff.mp hrun
  obtain rfl := Option.some.inj hrun
  obtain ⟨hi, hholds'⟩ := hholds.of_modify hmodify
  exact ⟨rfl, _, hholds', _, List.mem_set hi _, rfl⟩

theorem clear_after (h : mc.Carries (fun _ => True) pairs) {key : InputKey}
    (hrun : mc.clear key = some mc') :
    mc'.module = mc.module ∧ mc'.module_id = mc.module_id ∧ mc'.values.Holds [] ∧
      mc'.is_clear = true := by
  by_cases hnum : mc.get_num_values = 0
  · have hnil : pairs = [] := List.length_eq_zero_iff.mp (h.length_eq.trans hnum)
    have hholds := hnil ▸ h.1
    rw [clear, if_pos hnum] at hrun
    obtain ⟨resolved, -, hrun⟩ := Option.bind_eq_some_iff.mp hrun
    cases resolved with
    | none =>
        obtain rfl := Option.some.inj hrun
        exact ⟨rfl, rfl, hholds, by simp [is_clear, clearBit]⟩
    | some input =>
        obtain ⟨bit, -, hrun⟩ := Option.bind_eq_some_iff.mp hrun
        obtain rfl := Option.some.inj hrun
        refine ⟨rfl, rfl, hholds, ?_⟩
        rw [is_clear, BitVec.getLsbD_or, clearBit, getLsbD_or_twoPow (by omega)]
        simp
  · rw [clear, if_neg hnum] at hrun
    exact absurd hrun (by simp)

-- One call on a consistent message.
theorem consistent_iff_keeps_step (h : mc.Carries (fun _ => True) pairs) (hfits : Fits mc.module)
    {op : Op} (hop : op.Allowed) (hrun : op.run mc = some mc') :
    Fits mc'.module ∧ (∃ pairs', mc'.values.Holds pairs') ∧ (mc'.Consistent ↔ Keeps mc op) := by
  have hconsistent : mc.Consistent := (consistent_iff h.1).mpr h.2.1
  cases op with
  | set key value =>
      obtain ⟨⟨after, dv⟩, hvalue, -⟩ := Option.bind_eq_some_iff.mp hrun
      obtain ⟨hadds, rfl⟩ | ⟨hadds, pairs', i, rfl, hholds, -, hmodule, -, hiff, -⟩ :=
        value_of_cases h hfits hvalue
      · obtain ⟨hm, hholds, hiff⟩ := set_after hvalue h.1 hrun
        refine ⟨by rwa [hm], hholds, hiff.trans ?_⟩
        exact ⟨fun _ hc => hadds hc.2, fun _ => h.2.1⟩
      · obtain ⟨hm, hholds', hiff'⟩ := set_after hvalue hholds hrun
        refine ⟨by rwa [hm, hmodule], hholds', (hiff'.trans hiff).trans ?_⟩
        simp [Keeps, hadds]
  | get key size =>
      obtain ⟨⟨after, dv⟩, hvalue, -⟩ := Option.bind_eq_some_iff.mp hrun
      obtain ⟨hadds, rfl⟩ | ⟨hadds, pairs', i, rfl, hholds, hids, hmodule, -, hiff, -⟩ :=
        value_of_cases h hfits hvalue
      · obtain rfl := get_after hvalue (.inr rfl) hrun
        refine ⟨hfits, ⟨pairs, h.1⟩, fun _ => ?_, fun _ => hconsistent⟩
        cases key with
        | name name => exact fun hc => hadds hc.2
        | input input => exact hadds
      · cases key with
        | name name =>
            obtain rfl := get_after hvalue (.inl ⟨name, rfl⟩) hrun
            refine ⟨by rwa [hmodule], ⟨_, hholds⟩, ((consistent_iff hholds).trans hiff).trans ?_⟩
            simp [Keeps, hadds]
        | input input =>
            obtain ⟨hm, pairs'', hholds'', pair, hpair, hnone⟩ :=
              get_dangling hvalue hholds hids hrun
            refine ⟨by rwa [hm, hmodule], ⟨_, hholds''⟩, fun hc => ?_, fun hk => absurd hadds hk⟩
            exact absurd hnone (input_ne_none_of_key ((consistent_iff hholds'').mp hc) pair hpair)
  | value_for key =>
      obtain ⟨⟨after, dv⟩, hvalue, hrun⟩ := Option.bind_eq_some_iff.mp hrun
      obtain rfl := Option.some.inj hrun
      obtain ⟨hadds, rfl⟩ | ⟨hadds, pairs', i, rfl, hholds, -, hmodule, -, hiff, -⟩ :=
        value_of_cases h hfits hvalue
      · exact ⟨hfits, ⟨pairs, h.1⟩, fun _ hc => hadds hc.2, fun _ => hconsistent⟩
      · refine ⟨by rwa [hmodule], ⟨_, hholds⟩, ((consistent_iff hholds).trans hiff).trans ?_⟩
        simp [Keeps, hadds]
  | clear key =>
      obtain ⟨hm, -, hholds, hclear⟩ := clear_after h hrun
      refine ⟨by rwa [hm], ⟨_, hholds⟩, fun _ => trivial, fun _ => (consistent_iff hholds).mpr ?_⟩
      rw [carried, if_pos hclear]
      rfl
  | reset m =>
      obtain rfl := Option.some.inj hrun
      have hreset : (mc.reset m).Carries (fun _ => True) [] := carries_reset h.1 m
      exact ⟨hop, ⟨_, hreset.1⟩, fun _ => trivial, fun _ => (consistent_iff hreset.1).mpr hreset.2.1⟩

theorem everyState_iff_everyStep {ops : List Op} (h : mc.Carries (fun _ => True) pairs)
    (hfits : Fits mc.module) (hops : ∀ op ∈ ops, op.Allowed) {last : ModuleControl}
    (hrun : ops.foldlM Op.run mc = some last) :
    EveryState Consistent mc ops ↔ EveryStep Keeps mc ops := by
  have hconsistent : mc.Consistent := (consistent_iff h.1).mpr h.2.1
  induction ops generalizing mc pairs with
  | nil => exact ⟨fun _ => trivial, fun _ => hconsistent⟩
  | cons op ops ih =>
      rw [List.foldlM_cons] at hrun
      obtain ⟨mc', hop, hrest⟩ := Option.bind_eq_some_iff.mp hrun
      obtain ⟨hfits', ⟨pairs', hholds⟩, hiff⟩ := consistent_iff_keeps_step h hfits
        (hops op (by simp)) hop
      have hnext : mc'.Consistent → (EveryState Consistent mc' ops ↔ EveryStep Keeps mc' ops) := by
        intro hc
        have hcarries : mc'.Carries (fun _ => True) pairs' :=
          ⟨hholds, (consistent_iff hholds).mp hc, fun _ _ => trivial⟩
        exact ih hcarries hfits' (fun op hop => hops op (List.mem_cons_of_mem _ hop)) hrest hc
      constructor
      · rintro ⟨-, hstates⟩
        have hc : mc'.Consistent := by
          have := hstates mc' hop
          cases ops with
          | nil => exact this
          | cons _ _ => exact this.1
        refine ⟨hiff.mp hc, fun mc'' hop' => ?_⟩
        obtain rfl := Option.some.inj (hop.symm.trans hop')
        exact (hnext hc).mp (hstates _ hop)
      · rintro ⟨hkeeps, hsteps⟩
        refine ⟨hconsistent, fun mc'' hop' => ?_⟩
        obtain rfl := Option.some.inj (hop.symm.trans hop')
        exact (hnext (hiff.mpr hkeeps)).mpr (hsteps _ hop)

theorem EveryState.last {Q : ModuleControl → Prop} {ops : List Op} {last : ModuleControl}
    (h : EveryState Q mc ops) (hrun : ops.foldlM Op.run mc = some last) : Q last := by
  induction ops generalizing mc with
  | nil =>
      obtain rfl := Option.some.inj hrun
      exact h
  | cons op ops ih =>
      rw [List.foldlM_cons] at hrun
      obtain ⟨mc', hop, hrest⟩ := Option.bind_eq_some_iff.mp hrun
      exact ih (h.2 mc' hop) hrest

-- A run from a new message stays consistent exactly when every call keeps it so.
theorem consistent_iff_keeps (m : Module) (hm : m.num_inputs.toNat ≤ Module.MAX_INPUTS)
    {ops : List Op} (hops : ∀ op ∈ ops, op.Allowed) {last : ModuleControl}
    (hrun : ops.foldlM Op.run (forModule m) = some last) :
    EveryState Consistent (forModule m) ops ↔ EveryStep Keeps (forModule m) ops := by
  refine everyState_iff_everyStep (carries_forModule m) ?_ hops hrun
  intro m' hm'
  obtain rfl := Option.some.inj hm'
  exact hm

-- A value that is set and read back, and a clear message that gets a value.
def speedName : CString := ⟨[115, 112, 101, 101, 100], Configuration.speed_no_nul⟩

def turnName : CString := ⟨[116, 117, 114, 110], by decide⟩

def setSpeed : List Op := [.set (.name speedName) [3], .get (.name speedName) 1]

def clearThenSet : List Op := [.clear (.name turnName), .set (.name speedName) [3]]

theorem setSpeed_consistent_iff_keeps : EveryState Consistent (forModule Configuration.driveModule)
    setSpeed ↔ EveryStep Keeps (forModule Configuration.driveModule) setSpeed := by
  have hops : ∀ op ∈ setSpeed, op.Allowed := by
    intro op hop
    rcases List.mem_pair.mp hop with rfl | rfl <;> trivial
  have hsome : (setSpeed.foldlM Op.run (forModule Configuration.driveModule)).isSome = true := by
    decide
  exact consistent_iff_keeps Configuration.driveModule (by decide) hops (Option.some_get hsome).symm

theorem clearThenSet_not_consistent :
    (∃ last, clearThenSet.foldlM Op.run (forModule Configuration.driveModule) = some last) ∧
      ¬EveryState Consistent (forModule Configuration.driveModule) clearThenSet := by
  have hsome : (clearThenSet.foldlM Op.run (forModule Configuration.driveModule)).isSome = true := by
    decide
  have hcount : ∀ last ∈ clearThenSet.foldlM Op.run (forModule Configuration.driveModule),
      last.get_num_values ≠ last.values.size := by
    decide
  refine ⟨Option.isSome_iff_exists.mp hsome, fun h => ?_⟩
  have hlast := (Option.some_get hsome).symm
  obtain ⟨_, _, -, -, -, -, -, hsize⟩ := h.last hlast
  exact hcount _ hlast hsize

end ModuleControl

end RoboCrisp.Comms
