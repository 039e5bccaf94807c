import RoboCrisp.Comms.ModuleControl.Reset
import RoboCrisp.Comms.ModuleControl.Written

namespace RoboCrisp.Comms

open RoboCrisp.Stream RoboCrisp.Util

namespace ModuleControl

-- The const calls on a message.
inductive Read
  | value_for (key : InputKey)
  | get (key : InputKey) (size : Nat)

def Read.key : Read → InputKey
  | .value_for key => key
  | .get key _ => key

-- The message after the call.
def Read.run (mc : ModuleControl) : Read → Option ModuleControl
  | .value_for key => (Op.value_for key).run mc
  | .get key size => (Op.get key size).run mc

-- The bytes, the size and the inputs of a message are what they were.
structure Keeping (mc after : ModuleControl) : Prop where
  encode_eq : ∀ buf, after.encode buf = mc.encode buf
  size_eq : after.get_encoded_size = mc.get_encoded_size
  input_ids_eq : after.input_ids = mc.input_ids
  keys_eq : after.values.elems.map (List.map ValuePair.key) = mc.values.elems.map (List.map ValuePair.key)

-- One of the calls sets a value for the input with that id.
def SetFor (m : Module) (ops : List Op) (id : Nat) : Prop :=
  ∃ key value input, Op.set key value ∈ ops ∧ (forModule m).resolve key = some (some input) ∧
    input.input_id.toNat = id

-- The calls return, change nothing that is seen of the message, and find no value for an input that
-- never had one set.
def Undisturbed (ever : Nat → Prop) : ModuleControl → List Read → Prop
  | _, [] => True
  | mc, read :: reads => ∃ after, read.run mc = some after ∧ mc.Keeping after ∧
      (∀ key input, read = .value_for key → mc.resolve key = some (some input) →
        ¬ever input.input_id.toNat → mc.value_of key = some (after, none)) ∧
      Undisturbed ever after reads

-- What is read is no larger than the block of the value.
def Read.Within (mc : ModuleControl) (id : Nat) : Read → Prop
  | .value_for _ => True
  | .get _ size => ∀ pairs, mc.values.elems = some pairs → ∀ pair ∈ pairs, pair.key = some id →
      size ≤ pair.value.value.length

-- The call is for a name that the module does not have, or for an input whose bit is set.
def Quiet (mc : ModuleControl) (read : Read) : Prop :=
  mc.resolve read.key = some none ∨ ∃ m input, mc.module = some m ∧
    mc.resolve read.key = some (some input) ∧ input.input_id < m.num_inputs ∧
    mc.input_ids.getLsbD input.input_id.toNat = true ∧ read.Within mc input.input_id.toNat

variable {mc after : ModuleControl} {m : Module} {Good : ValuePair → Prop} {ids : List Nat}
  {pairs : List ValuePair} {input : ModuleInput} {key : InputKey}

theorem Keeping.refl : mc.Keeping mc := ⟨fun _ => rfl, rfl, rfl, rfl⟩

theorem value_of_unknown (hkey : mc.resolve key = some none) : mc.value_of key = some (mc, none) := by
  simp only [value_of, hkey, Option.bind_eq_bind, Option.bind_some]
  rfl

-- A lookup behind a set bit changes nothing.
theorem Written.value_of_set (h : Written Good m mc ids pairs) (hlt : input.input_id < m.num_inputs)
    (hkey : mc.resolve key = some (some input))
    (hbit : mc.input_ids.getLsbD input.input_id.toNat = true) :
    (input.input_id.toNat ∉ ids ∧ mc.value_of key = some (mc, none)) ∨
      ∃ i old, mc.value_of key = some (mc, some i) ∧ mc.values.get i = some old ∧ old ∈ pairs ∧
        old.key = some input.input_id.toNat := by
  have hvalue : mc.value_of key = mc.value_for input := by
    simp only [value_of, hkey, Option.bind_eq_bind, Option.bind_some]
  rw [hvalue, value_for_of_keys_set h.module_eq h.holds h.keys hlt (BitVec.lt_of_getLsbD hbit) hbit]
  by_cases hmem : input.input_id.toNat ∈ ids
  · obtain ⟨old, hget, hold⟩ := key_idxOf h.keys hmem
    exact .inr ⟨_, old, by rw [if_pos hmem], by rw [h.holds.get, hget], List.mem_of_getElem? hget, hold⟩
  · exact .inl ⟨hmem, by rw [if_neg hmem]⟩

-- Without a change of the bits, all that is left to do is to load the value.
theorem run_of_value_of {read : Read} {dv : Option Nat}
    (hvalue : mc.value_of read.key = some (mc, dv)) :
    read.run mc = match read, dv with
      | .get _ size, some i => (mc.values.get i).bind fun pair => (pair.value.get size).map fun _ => mc
      | _, _ => some mc := by
  cases read with
  | value_for key =>
      have hvalue : mc.value_of key = some (mc, dv) := hvalue
      simp only [Read.run, Op.run, hvalue, Option.bind_eq_bind, Option.bind_some]
      rfl
  | get key size =>
      have hvalue : mc.value_of key = some (mc, dv) := hvalue
      simp only [Read.run, Op.run, ModuleControl.get, hvalue, Option.bind_eq_bind, Option.bind_some]
      cases dv with
      | none => rfl
      | some i =>
          refine Option.bind_congr fun pair _ => ?_
          cases pair.value.get size <;> cases key <;> rfl

-- A read leaves the bits that its lookup leaves.
theorem input_ids_of_read {read : Read} {found : ModuleControl × Option Nat}
    (hvalue : mc.value_of read.key = some found) (hrun : read.run mc = some after) :
    after.input_ids = found.1.input_ids := by
  obtain ⟨next, dv⟩ := found
  cases read with
  | value_for key =>
      simp only [Read.run, Op.run, Read.key] at hrun hvalue
      rw [hvalue] at hrun
      rw [← Option.some.inj hrun]
  | get key size =>
      simp only [Read.run, Op.run, ModuleControl.get, Read.key] at hrun hvalue
      simp only [hvalue, Option.bind_eq_bind, Option.bind_some] at hrun
      cases dv with
      | none => rw [← Option.some.inj hrun]
      | some i =>
          obtain ⟨pair, -, hrun⟩ := Option.bind_eq_some_iff.mp hrun
          obtain ⟨_, -, hrun⟩ := Option.bind_eq_some_iff.mp hrun
          cases key with
          | name name => rw [← Option.some.inj hrun]
          | input input =>
              simp only at hrun
              split at hrun
              · rw [← Option.some.inj hrun]
              · obtain ⟨values, -, hrun⟩ := Option.bind_eq_some_iff.mp hrun
                rw [← Option.some.inj hrun]

theorem Written.run_of_quiet {read : Read} (h : Written Good m mc ids pairs) (hquiet : mc.Quiet read) :
    read.run mc = some mc := by
  obtain hkey | ⟨m', input, hm, hkey, hlt, hbit, hwithin⟩ := hquiet
  · rw [run_of_value_of (value_of_unknown hkey)]
    cases read <;> rfl
  · obtain rfl := Option.some.inj (h.module_eq.symm.trans hm)
    obtain ⟨-, hvalue⟩ | ⟨i, old, hvalue, hget, hold, hid⟩ := h.value_of_set hlt hkey hbit
    · rw [run_of_value_of hvalue]
      cases read <;> rfl
    · rw [run_of_value_of hvalue]
      cases read with
      | value_for key => rfl
      | get key size =>
          have hsize : size ≤ old.value.value.length := hwithin pairs h.holds.elems old hold hid
          have hload : old.value.get size = some (old.value.value.take size) := if_pos hsize
          simp only [hget, hload, Option.bind_some, Option.map_some]

-- The bit of the input would be new otherwise.
theorem Written.quiet_of_run {read : Read} (h : Written Good m mc ids pairs)
    (hrun : read.run mc = some after) (hids : after.input_ids = mc.input_ids) : mc.Quiet read := by
  obtain ⟨found, hvalue⟩ : ∃ found, mc.value_of read.key = some found := by
    cases read with
    | value_for key =>
        obtain ⟨found, hvalue, -⟩ := Option.bind_eq_some_iff.mp hrun
        exact ⟨found, hvalue⟩
    | get key size =>
        obtain ⟨found, hvalue, -⟩ := Option.bind_eq_some_iff.mp hrun
        exact ⟨found, hvalue⟩
  have hsame := (input_ids_of_read hvalue hrun).symm.trans hids
  obtain ⟨hkey, -⟩ | ⟨input, hkey, hcall, hlt, hid⟩ := resolve_of_value_of h.module_eq hvalue
  · exact .inl hkey
  have hbit : mc.input_ids.getLsbD input.input_id.toNat = true := by
    by_contra hbit
    obtain ⟨next, i, ids', pairs', old, hcall', -, -, hchanged, -⟩ :=
      h.value_for_found hlt hid fun hset => absurd hset hbit
    obtain rfl := Option.some.inj (hcall.symm.trans hcall')
    rw [← hsame, hchanged.input_ids_eq, getLsbD_or_twoPow hid, decide_eq_true rfl, Bool.or_true] at hbit
    exact hbit rfl
  refine .inr ⟨m, input, h.module_eq, hkey, hlt, hbit, ?_⟩
  cases read with
  | value_for key => trivial
  | get key size =>
      intro pairs' helems pair hpair hpairkey
      obtain rfl := Option.some.inj (h.holds.elems.symm.trans helems)
      obtain ⟨hnone, -⟩ | ⟨i, old, hvalue', hget, hold, holdkey⟩ := h.value_of_set hlt hkey hbit
      · exact absurd ((ValuePair.mem_ids h.keys).mpr ⟨pair, hpair, hpairkey⟩) hnone
      · obtain rfl := ValuePair.eq_of_key h.keys h.ascending hpair hold (hpairkey.trans holdkey.symm)
        rw [run_of_value_of hvalue'] at hrun
        simp only [hget, Option.bind_some] at hrun
        obtain ⟨bytes, hload, -⟩ := Option.map_eq_some_iff.mp hrun
        rw [DataValue.get, load] at hload
        split at hload
        · assumption
        · cases hload

-- A value is there only for an input that had one set.
def WasSet (m : Module) (ops : List Op) (pair : ValuePair) : Prop := ∃ id, pair.key = some id ∧ SetFor m ops id

theorem leaves_wasSet {ops : List Op} (hops : ∀ op ∈ ops, op.Fills) : ∀ op ∈ ops, op.Leaves (WasSet m ops) m := by
  intro op hop
  cases op with
  | set key value =>
      intro input old hkey hold _ _
      exact ⟨_, hold, key, value, input, hop, hkey, rfl⟩
  | clear key => trivial
  | get key size => exact (hops _ hop).elim
  | value_for key => exact (hops _ hop).elim
  | reset m => exact (hops _ hop).elim

theorem Written.undisturbed_iff_quiet {ever : Nat → Prop} (h : Written Good m mc ids pairs)
    (hever : ∀ pair id, Good pair → pair.key = some id → ever id) (reads : List Read) :
    mc.Undisturbed ever reads ↔ ∀ read ∈ reads, mc.Quiet read := by
  induction reads with
  | nil => exact iff_of_true trivial fun read hread => absurd hread List.not_mem_nil
  | cons read reads ih =>
      rw [List.forall_mem_cons]
      constructor
      · rintro ⟨after, hrun, hkeeping, -, hrest⟩
        have hquiet := h.quiet_of_run hrun hkeeping.input_ids_eq
        obtain rfl := Option.some.inj ((h.run_of_quiet hquiet).symm.trans hrun)
        exact ⟨hquiet, ih.mp hrest⟩
      · rintro ⟨hquiet, hrest⟩
        refine ⟨mc, h.run_of_quiet hquiet, Keeping.refl, ?_, ih.mpr hrest⟩
        rintro key input rfl hkey hnever
        obtain hnone | ⟨m', input', hm, hkey', hlt, hbit, -⟩ := hquiet
        · rw [Read.key, hkey] at hnone
          cases hnone
        · obtain rfl := Option.some.inj (h.module_eq.symm.trans hm)
          obtain rfl := Option.some.inj (Option.some.inj (hkey'.symm.trans hkey))
          obtain ⟨-, hvalue⟩ | ⟨i, old, -, -, hold, holdkey⟩ := h.value_of_set hlt hkey hbit
          · exact hvalue
          · exact absurd (hever old _ (h.good old hold) holdkey) hnever

-- Reading changes nothing exactly where there is nothing to add.
theorem undisturbed_iff {ops : List Op} (hops : ∀ op ∈ ops, op.Fills)
    (hrun : ops.foldlM Op.run (forModule m) = some mc) (reads : List Read) :
    mc.Undisturbed (SetFor m ops) reads ↔ ∀ read ∈ reads, mc.Quiet read := by
  obtain ⟨ids, pairs, h⟩ := (written_forModule (WasSet m ops) m).run (leaves_wasSet hops) hrun
  refine h.undisturbed_iff_quiet (fun pair id hset hkey => ?_) reads
  obtain ⟨id', hkey', hfor⟩ := hset
  obtain rfl := Option.some.inj (hkey.symm.trans hkey')
  exact hfor

def readSpeed : List Read := [.get (.name speedName) 1, .value_for (.name speedName)]

def threeSet : ModuleControl := (setThree.foldlM Op.run (forModule Configuration.driveModule)).get (by decide)

theorem threeSet_undisturbed : setThree.foldlM Op.run (forModule Configuration.driveModule) = some threeSet ∧
    threeSet.Undisturbed (SetFor Configuration.driveModule setThree) readSpeed := by
  have hrun : setThree.foldlM Op.run (forModule Configuration.driveModule) = some threeSet :=
    (Option.some_get _).symm
  refine ⟨hrun, (undisturbed_iff setThree_fills hrun readSpeed).mpr fun read hread => ?_⟩
  have hroom : ∀ pairs ∈ threeSet.values.elems, ∀ pair ∈ pairs, pair.key = some 0 →
      1 ≤ pair.value.value.length := by
    decide
  refine .inr ⟨Configuration.driveModule, Configuration.speedInput, by decide, ?_, by decide, by decide, ?_⟩
  · rcases List.mem_pair.mp hread with rfl | rfl <;> decide
  · rcases List.mem_pair.mp hread with rfl | rfl
    · exact hroom
    · trivial

-- Asking a new message for a value adds it.
theorem unset_not_undisturbed : ¬(forModule Configuration.driveModule).Undisturbed
    (SetFor Configuration.driveModule []) [.value_for (.name speedName)] := by
  rintro ⟨after, hrun, hkeeping, -⟩
  have hsize : ∀ after ∈ (Read.value_for (.name speedName)).run (forModule Configuration.driveModule),
      after.get_encoded_size ≠ (forModule Configuration.driveModule).get_encoded_size := by
    decide
  exact hsize after hrun hkeeping.size_eq

end ModuleControl

end RoboCrisp.Comms
