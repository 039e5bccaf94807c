import RoboCrisp.Comms.ModuleControl.RoundTrip

namespace RoboCrisp.Comms

open RoboCrisp.Stream RoboCrisp.Util

-- A message as the finite map from inputs to values that its user sees.

namespace ModuleControl

-- The values that the calls so far set last, by the ids of the inputs.
def Op.assign (m : Module) (last : Nat → Option Bytes) : Op → Nat → Option Bytes
  | .set key value =>
      match (forModule m).resolve key with
      | some (some input) => Function.update last input.input_id.toNat (some value)
      | _ => last
  | _ => last

def lastSet (m : Module) (ops : List Op) : Nat → Option Bytes := ops.foldl (Op.assign m) fun _ => none

variable {mc mc' : ModuleControl} {m : Module} {inputs : List ModuleInput} {pairs : List ValuePair}
  {last : Nat → Option Bytes}

-- A pair with the value of its input.
def Valued (inputs : List ModuleInput) (last : Nat → Option Bytes) (pair : ValuePair) : Prop :=
  Fitting inputs pair ∧ ∃ id, pair.key = some id ∧ last id = some pair.value.value

-- The bits tell which inputs have a value, and each pair has the one of its input.
structure Maps (m : Module) (inputs : List ModuleInput) (last : Nat → Option Bytes)
    (mc : ModuleControl) : Prop where
  module_eq : mc.module = some m
  module_id_eq : mc.module_id = m.id
  not_clear : mc.is_clear = false
  carries : ∃ pairs, mc.Carries (Valued inputs last) pairs
  input_ids : ∀ id, mc.input_ids.getLsbD id = (last id).isSome

theorem maps_forModule (m : Module) (inputs : List ModuleInput) :
    Maps m inputs (fun _ => none) (forModule m) :=
  ⟨rfl, rfl, by simp [is_clear, forModule], ⟨[], carries_forModule m⟩, fun _ => by simp [forModule]⟩

section Calls

-- The value that an input has, which is zero as long as it is not set.
def valueOf (last : Nat → Option Bytes) (input : ModuleInput) : Bytes :=
  (last input.input_id.toNat).getD (List.replicate input.data_type.width.toNat 0)

theorem valued_update {input : ModuleInput} {pair : ValuePair} (h : Valued inputs last pair)
    {value : Bytes} (hother : pair.key = some input.input_id.toNat → pair.value.value = value) :
    Valued inputs (Function.update last input.input_id.toNat (some value)) pair := by
  obtain ⟨hfits, id, hkey, hlast⟩ := h
  refine ⟨hfits, id, hkey, ?_⟩
  by_cases hid : id = input.input_id.toNat
  · subst hid
    rw [Function.update_self, hother hkey]
  · rw [Function.update_of_ne hid, hlast]

-- Looking for the value of an input gives it one.
theorem Maps.value_for (h : Maps m inputs last mc) (hm : m.Identified inputs) {input : ModuleInput}
    (hinput : input ∈ inputs) :
    ∃ after i pair pairs, mc.value_for input = some (after, some i) ∧
      Maps m inputs (Function.update last input.input_id.toNat (some (valueOf last input))) after ∧
      after.Carries (Valued inputs
        (Function.update last input.input_id.toNat (some (valueOf last input)))) pairs ∧
      pairs[i]? = some pair ∧ pair.key = some input.input_id.toNat ∧
      pair.value.value = valueOf last input ∧
      (last input.input_id.toNat ≠ none → after = mc) := by
  obtain ⟨hlt, hid⟩ := hm.addresses hinput
  obtain ⟨pairs, hholds, hkeys, hgood⟩ := h.carries
  have hcarries : mc.Carries (Valued inputs
      (Function.update last input.input_id.toNat (some (valueOf last input)))) pairs := by
    refine ⟨hholds, hkeys, fun pair hpair => valued_update (hgood pair hpair) fun hkey => ?_⟩
    obtain ⟨-, id, hkey', hlast⟩ := hgood pair hpair
    obtain rfl := Option.some.inj (hkey'.symm.trans hkey)
    rw [valueOf, hlast]
    rfl
  have hnew : mc.input_ids.getLsbD input.input_id.toNat = false → Valued inputs
      (Function.update last input.input_id.toNat (some (valueOf last input)))
      ⟨some input, .ofType input.data_type⟩ := by
    intro hbit
    rw [h.input_ids, Option.isSome_eq_false_iff, Option.isNone_iff_eq_none] at hbit
    refine ⟨⟨input, hinput, rfl, rfl, List.length_replicate⟩, _, rfl, ?_⟩
    rw [Function.update_self, valueOf, hbit]
    rfl
  obtain ⟨after, i, pair, pairs', hvalue, hmodule, hmid, hclear, hids, hsame, hafter, hpair, hkey⟩ :=
    hcarries.value_for h.module_eq h.not_clear hlt hid hnew
  refine ⟨after, i, pair, pairs', hvalue, ⟨hmodule.trans h.module_eq, hmid.trans h.module_id_eq, hclear,
    ⟨pairs', hafter⟩, fun id => ?_⟩, hafter, hpair, hkey, ?_, fun hset => hsame ?_⟩
  · rw [hids, getLsbD_or_twoPow (by omega), h.input_ids]
    by_cases hsame : input.input_id.toNat = id
    · subst hsame
      simp
    · rw [Function.update_of_ne (Ne.symm hsame), decide_eq_false hsame, Bool.or_false]
  · obtain ⟨-, id, hkey', hlast⟩ := hafter.2.2 pair (List.mem_of_getElem? hpair)
    obtain rfl := Option.some.inj (hkey'.symm.trans hkey)
    rw [Function.update_self] at hlast
    exact (Option.some.inj hlast).symm
  · rw [h.input_ids]
    exact Option.isSome_iff_ne_none.mpr hset

-- What `set` does.
theorem Maps.set (h : Maps m inputs last mc) (hm : m.Identified inputs) {op : Op} (hop : op.Sets m) :
    ∃ after, op.run mc = some after ∧ Maps m inputs (op.assign m last) after := by
  obtain ⟨key, value, rfl, hcall⟩ := hop
  obtain ⟨found, hresolve, hfound⟩ := resolve_eq hm h.module_eq key
  cases found with
  | none =>
      refine ⟨mc, ?_, ?_⟩
      · simp only [Op.run, ModuleControl.set, value_of, hresolve, Option.bind_eq_bind, Option.bind_some,
          Option.pure_def]
      · simp only [Op.assign, hfound]
        exact h
  | some input =>
      obtain ⟨hhas, hwidth⟩ := hcall input hfound
      have hinput := mem_of_hasInput hm.contains hhas
      obtain ⟨after, i, pair, pairs, hvalue, hmaps, ⟨hholds, hkeys, hgood⟩, hpair, hkey, -, -⟩ :=
        h.value_for hm hinput
      obtain ⟨values, hset, hmodify, hholds', hkeys'⟩ :=
        store_value hm hholds (fun pair hpair => (hgood pair hpair).1) hpair hkey hinput hwidth
      refine ⟨{ after with values }, ?_, ?_⟩
      · simp only [Op.run, ModuleControl.set, value_of, hresolve, Option.bind_eq_bind, Option.bind_some,
          hvalue, hholds.get, hpair, hset, hmodify, Option.pure_def]
      · simp only [Op.assign, hfound]
        refine ⟨hmaps.module_eq, hmaps.module_id_eq, hmaps.not_clear, ⟨_, hholds', ?_, ?_⟩, fun id => ?_⟩
        · rw [hkeys', hkeys]
          rfl
        · intro other hother
          obtain rfl | ⟨hmem, hne⟩ := (mem_set_iff_of_keys hkeys after.ascending_carried hpair).mp hother
          · exact ⟨⟨input, hinput, rfl, rfl, hwidth⟩, _, rfl, Function.update_self _ _ _⟩
          · have hsame : other.key = some input.input_id.toNat → other.value.value = value :=
              fun hsame => absurd (hsame.trans hkey.symm) hne
            have hother := valued_update (hgood other hmem) hsame
            rwa [Function.update_idem] at hother
        · have hbits := hmaps.input_ids id
          by_cases hid : id = input.input_id.toNat
          · subst hid
            rw [Function.update_self] at hbits ⊢
            exact hbits
          · rw [Function.update_of_ne hid] at hbits ⊢
            exact hbits

-- What `get` returns, and that it leaves a message as it is that has the value.
theorem Maps.get_value (h : Maps m inputs last mc) (hm : m.Identified inputs) {key : InputKey}
    {input : ModuleInput} (hkey : (forModule m).resolve key = some (some input))
    (hinput : input ∈ inputs) (size : Nat) :
    mc.get_value key size = load (valueOf last input) size ∧
      (last input.input_id.toNat ≠ none → size ≤ (valueOf last input).length →
        mc.get key size = some mc) := by
  obtain ⟨found, hresolve, hfound⟩ := resolve_eq hm h.module_eq key
  obtain rfl := Option.some.inj (hkey.symm.trans hfound)
  obtain ⟨after, i, pair, pairs, hvalue, -, ⟨hholds, -, -⟩, hpair, -, hown, hsame⟩ :=
    h.value_for hm hinput
  have hof : mc.value_of key = some (after, some i) := by
    rw [value_of, hresolve]
    exact hvalue
  have hget : after.values.get i = some pair := by rw [hholds.get, hpair]
  constructor
  · rw [ModuleControl.get_value, hof]
    simp only [Option.bind_eq_bind, Option.bind_some, hget, DataValue.get, hown]
  · intro hset hsize
    obtain rfl := hsame hset
    rw [ModuleControl.get, hof]
    simp only [Option.bind_eq_bind, Option.bind_some, hget, DataValue.get, hown, load, if_pos hsize]
    cases key <;> simp

end Calls

section Encoding

theorem Valued.bytes_eq {pair : ValuePair} (h : Valued inputs last pair) :
    some pair.bytes = pair.key.bind last := by
  obtain ⟨hfits, id, hkey, hlast⟩ := h
  rw [hfits.bytes_eq, hkey, Option.bind_some, hlast]

-- The bytes of the values in the order in which they are sent.
theorem map_bytes_eq (h : mc.Carries (Valued inputs last) pairs) :
    (pairs.map ValuePair.bytes).map some = mc.carried.map last := by
  have hmap : (mc.carried.map some).map (fun key => key.bind last) = mc.carried.map last := by
    rw [List.map_map]
    rfl
  rw [← hmap, ← h.2.1, List.map_map, List.map_map]
  exact List.map_congr_left fun pair hpair => (h.2.2 pair hpair).bytes_eq

-- Whatever calls led to it, the map decides what is encoded.
theorem Maps.encode_eq (h : Maps m inputs last mc) (h' : Maps m inputs last mc') :
    mc.encode = mc'.encode ∧ mc.get_encoded_size = mc'.get_encoded_size := by
  obtain ⟨pairs, hcarries⟩ := h.carries
  obtain ⟨pairs', hcarries'⟩ := h'.carries
  have hids : mc.input_ids = mc'.input_ids := by
    apply BitVec.eq_of_getLsbD_eq
    intro id _
    rw [h.input_ids, h'.input_ids]
  have hcarried : mc.carried = mc'.carried := by
    rw [carried, carried, is_clear, is_clear, hids]
  have hbytes : pairs.map ValuePair.bytes = pairs'.map ValuePair.bytes := by
    apply List.map_injective_iff.mpr (Option.some_injective Bytes)
    rw [map_bytes_eq hcarries, map_bytes_eq hcarries', hcarried]
  have hheader : mc.header = mc'.header := by
    rw [header, header, h.module_id_eq, h'.module_id_eq, hids]
  have hpieces : mc.pieces pairs = mc'.pieces pairs' := by
    have hmap := congrArg (List.map fun bytes => (⟨bytes, true⟩ : Piece UInt8)) hbytes
    rw [List.map_map, List.map_map] at hmap
    rw [pieces, pieces, hheader]
    exact congrArg _ hmap
  have hload : ∀ pair ∈ pairs, pair.Loadable := fun pair hpair => (hcarries.2.2 pair hpair).1.loadable
  have hload' : ∀ pair ∈ pairs', pair.Loadable :=
    fun pair hpair => (hcarries'.2.2 pair hpair).1.loadable
  constructor
  · funext buf
    rw [hcarries.emits hload buf, hcarries'.emits hload' buf, hpieces]
  · rw [hcarries.get_encoded_size_eq hload, hcarries'.get_encoded_size_eq hload', ← wire_pieces,
      ← wire_pieces, hpieces]

end Encoding

section Runs

theorem run_maps (hm : m.Identified inputs) {ops : List Op} (hops : ∀ op ∈ ops, op.Sets m)
    (h : Maps m inputs last mc) :
    ∃ after, ops.foldlM Op.run mc = some after ∧
      Maps m inputs (ops.foldl (Op.assign m) last) after := by
  induction ops generalizing mc last with
  | nil => exact ⟨mc, rfl, h⟩
  | cons op ops ih =>
      obtain ⟨next, hrun, hnext⟩ := h.set hm (hops op List.mem_cons_self)
      obtain ⟨after, hrest, hafter⟩ := ih (fun op hop => hops op (List.mem_cons_of_mem _ hop)) hnext
      refine ⟨after, ?_, hafter⟩
      rw [List.foldlM_cons, hrun]
      exact hrest

-- The input of the module that a key names.
def Names (m : Module) (key : InputKey) (input : ModuleInput) : Prop :=
  (forModule m).resolve key = some (some input) ∧ m.HasInput input

theorem assign_of_not_names (hm : m.Identified inputs) {key other : InputKey} {value : Bytes}
    (hcall : (Op.set key value).Sets m) {input : ModuleInput} (hother : Names m other input)
    (hne : ¬Names m key input) :
    Op.assign m last (.set key value) input.input_id.toNat = last input.input_id.toNat := by
  obtain ⟨_, _, hop, hcall⟩ := hcall
  obtain ⟨rfl, rfl⟩ := Op.set.inj hop
  cases hfound : (forModule m).resolve key with
  | none => simp only [Op.assign, hfound]
  | some found =>
      cases found with
      | none => simp only [Op.assign, hfound]
      | some found =>
          simp only [Op.assign, hfound]
          have hhas := (hcall found hfound).1
          refine Function.update_of_ne (fun hid => hne ?_) _ _
          rw [hm.eq_of_id (mem_of_hasInput hm.contains hother.2) (mem_of_hasInput hm.contains hhas) hid]
          exact ⟨hfound, hhas⟩

-- A message that behaves like a map with these values. What is set can be looked up, and a
-- lookup changes nothing. A further call can be made, and changes what is returned for no
-- other input, whether it has been set or not.
structure BehavesAs (m : Module) (last : Nat → Option Bytes) (mc : ModuleControl) : Prop where
  get : ∀ key input value, Names m key input → last input.input_id.toNat = some value →
    mc.get_value key value.length = some value ∧ mc.get key value.length = some mc
  others : ∀ key value, (Op.set key value).Sets m → ∃ after, mc.set key value = some after ∧
    ∀ other input, Names m other input → ¬Names m key input → ∀ size,
      after.get_value other size = mc.get_value other size

theorem Maps.behavesAs (h : Maps m inputs last mc) (hm : m.Identified inputs) :
    BehavesAs m last mc := by
  constructor
  · rintro key input value ⟨hkey, hhas⟩ hlast
    have hvalue : valueOf last input = value := by
      rw [valueOf, hlast]
      rfl
    obtain ⟨hget, hsame⟩ := h.get_value hm hkey (mem_of_hasInput hm.contains hhas) value.length
    rw [hvalue] at hget hsame
    refine ⟨hget.trans (if_pos (Nat.le_refl _) |>.trans ?_), hsame (by rw [hlast]; simp) (Nat.le_refl _)⟩
    rw [List.take_length]
  · intro key value hcall
    obtain ⟨after, hrun, hafter⟩ := h.set hm hcall
    refine ⟨after, hrun, ?_⟩
    rintro other input ⟨hother, hhas⟩ hne size
    have hinput := mem_of_hasInput hm.contains hhas
    have hvalue : valueOf (Op.assign m last (.set key value)) input = valueOf last input := by
      rw [valueOf, valueOf, assign_of_not_names hm hcall ⟨hother, hhas⟩ hne]
    rw [(hafter.get_value hm hother hinput size).1, (h.get_value hm hother hinput size).1, hvalue]

-- Calls of `set` on a new message leave one that behaves like the map of the values set last.
-- Whatever the order in which another run of calls has come to the same values, the messages
-- are encoded alike into any buffer.
theorem run_finite_map (hm : m.Identified inputs) {ops others : List Op}
    (hops : ∀ op ∈ ops, op.Sets m) (hothers : ∀ op ∈ others, op.Sets m) :
    ∃ mc other, ops.foldlM Op.run (forModule m) = some mc ∧
      others.foldlM Op.run (forModule m) = some other ∧ BehavesAs m (lastSet m ops) mc ∧
      (lastSet m ops = lastSet m others →
        mc.encode = other.encode ∧ mc.get_encoded_size = other.get_encoded_size) := by
  have hstart := maps_forModule m inputs
  obtain ⟨mc, hrun, hmc⟩ := run_maps hm hops hstart
  obtain ⟨other, hother, hmaps⟩ := run_maps hm hothers hstart
  refine ⟨mc, other, hrun, hother, hmc.behavesAs hm, fun hsame => ?_⟩
  rw [lastSet, lastSet] at hsame
  rw [hsame] at hmc
  exact hmc.encode_eq hmaps

end Runs

section Steering

-- Two inputs that stand in the reverse order of their ids.
def turnInput : ModuleInput := .declare (some turnName) 1 Configuration.speed false

def speedInput : ModuleInput := .declare (some speedName) 0 Configuration.speed false

def steering : Module :=
  { Module.empty with
    num_inputs := 2
    inputs := ⟨some [some turnInput, some speedInput], 2, 2⟩ }

theorem steering_identified : steering.Identified [turnInput, speedInput] := by
  refine ⟨⟨⟨.inl ⟨rfl, .inr ⟨0, rfl, rfl⟩⟩, rfl⟩, by decide, ?_⟩, by decide, by decide⟩
  intro input hinput
  rcases List.mem_pair.mp hinput with rfl | rfl
  · exact ⟨turnName.chars, rfl, fun _ => ⟨_, rfl, List.prefix_append _ _⟩⟩
  · exact ⟨speedName.chars, rfl, fun _ => ⟨_, rfl, List.prefix_append _ _⟩⟩

def turnFirst : List Op :=
  [.set (.name turnName) [1], .set (.name speedName) [2], .set (.name turnName) [3]]

def speedFirst : List Op := [.set (.input speedInput) [2], .set (.name turnName) [3]]

theorem resolve_turn : (forModule steering).resolve (.name turnName) = some (some turnInput) := by
  decide

theorem resolve_speed : (forModule steering).resolve (.name speedName) = some (some speedInput) := by
  decide

theorem sets_turn (value : UInt8) : (Op.set (.name turnName) [value]).Sets steering := by
  refine ⟨_, _, rfl, fun input hinput => ?_⟩
  obtain rfl := Option.some.inj (Option.some.inj (resolve_turn.symm.trans hinput))
  exact ⟨⟨_, rfl, List.mem_cons_self⟩, rfl⟩

theorem sets_speed {key : InputKey} (hkey : (forModule steering).resolve key = some (some speedInput))
    (value : UInt8) : (Op.set key [value]).Sets steering := by
  refine ⟨_, _, rfl, fun input hinput => ?_⟩
  obtain rfl := Option.some.inj (Option.some.inj (hkey.symm.trans hinput))
  exact ⟨⟨_, rfl, List.mem_cons_of_mem _ List.mem_cons_self⟩, rfl⟩

theorem steering_finite_map : ∃ mc other, turnFirst.foldlM Op.run (forModule steering) = some mc ∧
    speedFirst.foldlM Op.run (forModule steering) = some other ∧
    BehavesAs steering (lastSet steering turnFirst) mc ∧ mc.encode = other.encode := by
  have hturnFirst : ∀ op ∈ turnFirst, op.Sets steering := by
    intro op hop
    simp only [turnFirst, List.mem_cons, List.not_mem_nil, or_false] at hop
    obtain rfl | rfl | rfl := hop
    · exact sets_turn 1
    · exact sets_speed resolve_speed 2
    · exact sets_turn 3
  have hspeedFirst : ∀ op ∈ speedFirst, op.Sets steering := by
    intro op hop
    rcases List.mem_pair.mp hop with rfl | rfl
    · exact sets_speed rfl 2
    · exact sets_turn 3
  have hsame : lastSet steering turnFirst = lastSet steering speedFirst := by
    have hspeed : (forModule steering).resolve (.input speedInput) = some (some speedInput) := rfl
    have hne : turnInput.input_id.toNat ≠ speedInput.input_id.toNat := by decide
    simp only [lastSet, turnFirst, speedFirst, List.foldl_cons, List.foldl_nil, Op.assign, resolve_turn,
      resolve_speed, hspeed]
    rw [Function.update_comm hne, Function.update_idem]
  obtain ⟨mc, other, hrun, hother, hbehaves, hencode⟩ :=
    run_finite_map steering_identified hturnFirst hspeedFirst
  exact ⟨mc, other, hrun, hother, hbehaves, (hencode hsame).1⟩

end Steering

end ModuleControl

end RoboCrisp.Comms
