import RoboCrisp.Comms.Equality
import RoboCrisp.Comms.ModuleControl.Consistency
import RoboCrisp.Comms.ModuleControl.Transcoding

namespace RoboCrisp.Comms

open RoboCrisp.Stream RoboCrisp.Util

theorem ValuePair.eq_self {pair : ValuePair} {input : ModuleInput} {chars : Bytes}
    (hinput : pair.input = some input) (hname : NameIs input.name input.name_length chars)
    (hload : pair.Loadable) : pair.eq pair = some true := by
  simp [ValuePair.eq, hinput, ModuleInput.eq_self hname, DataValue.eq, DataDeclaration.eq_self,
    hload.load_eq]

namespace Module

variable {m : Module} {inputs : List ModuleInput}

def HasInput (m : Module) (input : ModuleInput) : Prop :=
  ∃ inputs, m.inputs.elems = some inputs ∧ input ∈ inputs

-- The search ends with an input of the module or with none.
theorem Identified.find_input (h : m.Identified inputs) (name : CString) :
    ∃ found, m.find_input name = some found ∧ ∀ input, found = some input → input ∈ inputs := by
  refine foldlM_inv ?_ (by simp)
  intro found hfound i hi
  cases found with
  | some input => exact ⟨some input, rfl, hfound⟩
  | none =>
      rw [List.mem_range, h.num_inputs] at hi
      have hmem := List.getElem_mem hi
      obtain ⟨chars, hchars⟩ := h.names _ hmem
      have hget : m.inputs.get i = some inputs[i] := by
        rw [h.contains.get, List.getElem?_eq_getElem hi]
      simp only [hget, Option.bind_eq_bind, Option.bind_some]
      by_cases hlength : inputs[i].name_length.toNat = strlen name
      · have hsame : name.chars.length = chars.length := hlength.symm.trans hchars.1
        obtain ⟨back, hback⟩ := hchars.prefix_getD
        rw [if_pos hlength, hlength, ← hback, strlen, CString.block,
          strncmp_eq hsame name.no_nul]
        refine ⟨_, rfl, fun input hinput => ?_⟩
        obtain ⟨-, hsame⟩ := Option.ite_none_right_eq_some.mp hinput
        exact Option.some.inj hsame ▸ hmem
      · rw [if_neg hlength]
        exact ⟨none, rfl, fun input hinput => absurd hinput (by simp)⟩

end Module

-- A configuration in which the id of a module leads to it.
structure Configuration.Controllable (config : Configuration) (modules : List Module) : Prop where
  contains : config.modules.Contains modules
  id : ∀ (i : Nat) (m : Module), modules[i]? = some m → m.id.toNat = i
  controllable : ∀ m ∈ modules, ∃ inputs, m.Controllable inputs

theorem Configuration.Controllable.get {config : Configuration} {modules : List Module}
    (h : config.Controllable modules) {m : Module} (hm : m ∈ modules) :
    config.modules.get m.id.toNat = some m := by
  obtain ⟨i, hi, rfl⟩ := List.getElem_of_mem hm
  have hget := List.getElem?_eq_getElem hi
  rw [h.contains.get, h.id i _ hget, hget]

section Built

theorem Module.Dense.indexed {Declared : DataDeclaration → Prop} {m : Module} (h : m.Dense Declared) :
    ∃ inputs, m.Indexed inputs ∧ m.inputs.size = inputs.length ∧
      ∀ input ∈ inputs, input.toNamedTyped.Plain Declared := by
  obtain ⟨inputs, hholds, horder, hcount, -⟩ := h.inputs
  refine ⟨inputs, ⟨⟨.inl hholds, hcount⟩, fun j input hget => ?_⟩, hholds.size_eq, horder.good⟩
  obtain ⟨hj, rfl⟩ := List.getElem?_eq_some_iff.mp hget
  exact horder.id_getElem j hj

theorem Module.Dense.addressable {Declared : DataDeclaration → Prop} {m : Module} (h : m.Dense Declared)
    (hlimit : m.inputs.size ≤ MAX_INPUTS) :
    ∃ inputs, m.Addressable inputs ∧ ∀ input ∈ inputs, Declared input.data_type := by
  obtain ⟨inputs, hindexed, hsize, hplain⟩ := h.indexed
  refine ⟨inputs, ⟨hindexed, hsize ▸ hlimit, fun input hinput => ?_⟩,
    fun input hinput => (hplain input hinput).data_type⟩
  obtain ⟨chars, hname, -⟩ := (hplain input hinput).name
  exact ⟨chars, hname⟩

theorem Module.Dense.controllable {m : Module} (h : m.Dense fun data_type => data_type.is_array = false)
    (hlimit : m.inputs.size ≤ MAX_INPUTS) : ∃ inputs, m.Controllable inputs := by
  obtain ⟨inputs, hinputs, hdeclared⟩ := h.addressable hlimit
  exact ⟨inputs, hinputs, hdeclared⟩

theorem Configuration.Built.withinLimits {Declared : DataDeclaration → Prop} {c : Configuration}
    (h : c.Built Declared) : c.WithinLimits := by
  cases h with
  | empty modules_alloc =>
      have hholds := SArray.holds_alloc (α := Module) modules_alloc.toNat
      refine ⟨hholds.size_eq ▸ Nat.zero_le _, fun m hm => ?_⟩
      rw [Configuration.empty, hholds.elems] at hm
      exact absurd hm List.not_mem_nil
  | step _ _ _ _ hlimit => exact hlimit

-- The id of a module leads to it.
theorem Configuration.Built.get_id {Declared : DataDeclaration → Prop} {c : Configuration}
    (h : c.Built Declared) {i : Nat} {m : Module} (hget : c.modules.get i = some m) :
    c.modules.get m.id.toNat = some m ∧ ∃ inputs, m.Addressable inputs := by
  obtain ⟨modules, hholds, horder, -⟩ := h.numbered
  have hlimits := h.withinLimits.2
  rw [hholds.elems] at hlimits
  have hmodule := hget
  rw [hholds.get] at hget
  obtain ⟨hi, rfl⟩ := List.getElem?_eq_some_iff.mp hget
  have hmem := List.getElem_mem hi
  obtain ⟨inputs, hinputs, -⟩ := (horder.good _ hmem).addressable (hlimits _ hmem).1
  exact ⟨(horder.id_getElem i hi).symm ▸ hmodule, inputs, hinputs⟩

-- The calls that build a configuration without arrays leave it in this form.
theorem Configuration.Built.controllable {c : Configuration}
    (h : c.Built fun data_type => data_type.is_array = false) :
    ∃ modules, c.Controllable modules := by
  obtain ⟨modules, hholds, horder, -⟩ := h.numbered
  have hlimits := h.withinLimits.2
  rw [hholds.elems] at hlimits
  refine ⟨modules, .inl hholds, fun i m hget => ?_, fun m hm => ?_⟩
  · obtain ⟨hi, rfl⟩ := List.getElem?_eq_some_iff.mp hget
    exact horder.id_getElem i hi
  · exact (horder.good m hm).controllable (hlimits m hm).1

end Built

namespace ModuleControl

-- Calls of `set` and of `clear` that name an input of the module, or by a name that the
-- module does not have. A value has the width that the input declares.
def Op.Sets (m : Module) (op : Op) : Prop :=
  ∃ key value, op = .set key value ∧ ∀ input, (forModule m).resolve key = some (some input) →
    m.HasInput input ∧ value.length = input.data_type.width.toNat

def Op.Clears (m : Module) (op : Op) : Prop :=
  ∃ key, op = .clear key ∧
    ∀ input, (forModule m).resolve key = some (some input) → m.HasInput input

-- encode fills exactly the announced size, and decode reads exactly that back, whatever
-- follows it and whatever the target held before.
def RoundTrips [Heap] (mc : ModuleControl) (config : Configuration) : Prop :=
  ∃ size bytes, mc.get_encoded_size = some size ∧ bytes.length = size ∧
    (∀ buf : MemoryEncodeBuffer, size ≤ buf.free →
      mc.encode buf = some (.SUCCESS, buf.append bytes)) ∧
    ∀ (target : ModuleControl) (old : List ValuePair), target.values.Holds old →
      ∀ (buf : DecodeBuffer) (suffix : Bytes), buf.rest = bytes ++ suffix →
        ∃ (out : ModuleControl) (pairs : List ValuePair) (ids : List Nat),
          target.decode config buf = some ((.SUCCESS, out), buf.advance size) ∧
          mc.eq out = some true ∧ out.eq mc = some true ∧ out.values.elems = some pairs ∧
          pairs.map ValuePair.key = ids.map some ∧ ids.Pairwise (· < ·)

variable {mc : ModuleControl} {m : Module} {inputs : List ModuleInput} {pairs : List ValuePair}

theorem eq_of_same_values {Good : ValuePair → Prop} {out : ModuleControl} (h : mc.Carries Good pairs)
    (hself : ∀ pair ∈ pairs, pair.eq pair = some true) (hid : out.module_id = mc.module_id)
    (hids : out.input_ids = mc.input_ids) (hholds : out.values.Holds pairs) :
    mc.eq out = some true := by
  rw [ModuleControl.eq, if_pos ⟨hid.symm, hids.symm⟩, if_pos (by rw [h.1.size_eq, h.length_eq])]
  refine foldlM_all_iff.mpr ⟨rfl, fun i hi => ?_⟩
  rw [List.mem_range, ← h.length_eq] at hi
  have hpair := hself _ (List.getElem_mem hi)
  simp [h.1.get, hholds.get, List.getElem?_eq_getElem hi, hpair]

-- Whatever the keys, a message that carries fitting values for a module round-trips.
theorem Carries.roundTrips_of_fitting [Heap] (h : mc.Carries (Fitting inputs) pairs) {config : Configuration}
    (hget : config.modules.get mc.module_id.toNat = some m) (hm : m.Addressable inputs)
    (hscalar : ∀ pair ∈ pairs, pair.Scalar) : mc.RoundTrips config := by
  have hload : ∀ pair ∈ pairs, pair.Loadable := fun pair hpair => (h.2.2 pair hpair).loadable
  have hself : ∀ pair ∈ pairs, pair.eq pair = some true := by
    intro pair hpair
    obtain ⟨input, hmem, hinput, -⟩ := h.2.2 pair hpair
    obtain ⟨chars, hname⟩ := hm.names input hmem
    exact ValuePair.eq_self hinput hname (hload pair hpair)
  have hstores : Stores mc.encode (mc.encoding pairs) := by
    rw [← wire_pieces]
    exact (h.emits hload).stores
  refine ⟨_, mc.encoding pairs, h.get_encoded_size_eq hload, rfl, hstores, ?_⟩
  intro target old hold buf suffix hbuf
  obtain ⟨out, hdecode, -, hid, hids, hholds⟩ := h.consumes_decode hget hm.toIndexed hscalar hold
  have hout := h.received hholds hids
  exact ⟨out, pairs, mc.carried, hdecode buf suffix hbuf, eq_of_same_values h hself hid hids hholds,
    eq_of_same_values hout hself hid.symm hids.symm h.1, hholds.elems, h.2.1, mc.ascending_carried⟩

section Runs

theorem mem_of_hasInput (hcontains : m.inputs.Contains inputs) {input : ModuleInput}
    (h : m.HasInput input) : input ∈ inputs := by
  obtain ⟨inputs', helems, hmem⟩ := h
  rw [hcontains.elems] at helems
  exact Option.some.inj helems ▸ hmem

theorem resolve_eq (hm : m.Identified inputs) (hmodule : mc.module = some m) (key : InputKey) :
    ∃ found, mc.resolve key = some found ∧ (forModule m).resolve key = some found := by
  cases key with
  | input input => exact ⟨some input, rfl, rfl⟩
  | name name =>
      obtain ⟨found, hfound, -⟩ := hm.find_input name
      refine ⟨found, ?_, hfound⟩
      rw [resolve, hmodule]
      exact hfound

-- What a run of `set` calls keeps.
def Assigned (m : Module) (inputs : List ModuleInput) (mc : ModuleControl) : Prop :=
  mc.module = some m ∧ mc.module_id = m.id ∧ mc.is_clear = false ∧
    ∃ pairs, mc.Carries (Fitting inputs) pairs

theorem Assigned.value_for (h : Assigned m inputs mc) (hm : m.Identified inputs)
    {input : ModuleInput} (hinput : input ∈ inputs) :
    ∃ after i pair pairs, mc.value_for input = some (after, some i) ∧
      after.module = some m ∧ after.module_id = m.id ∧ after.is_clear = false ∧
      after.Carries (Fitting inputs) pairs ∧ pairs[i]? = some pair ∧
      pair.key = some input.input_id.toNat := by
  obtain ⟨hmodule, hmid, hclear, pairs, hcarries⟩ := h
  obtain ⟨hlt, hid⟩ := hm.addresses hinput
  have hfits : Fitting inputs ⟨some input, .ofType input.data_type⟩ :=
    ⟨input, hinput, rfl, rfl, List.length_replicate⟩
  obtain ⟨after, i, pair, pairs', hvalue, hstays, hmid', hclear', -, -, hafter, hpair, hkey⟩ :=
    hcarries.value_for hmodule hclear hlt hid fun _ => hfits
  exact ⟨after, i, pair, pairs', hvalue, hstays.trans hmodule, hmid'.trans hmid, hclear', hafter, hpair,
    hkey⟩

-- A value of the right width takes the place of the one before it.
theorem store_value (hm : m.Identified inputs) {values : SArray ValuePair}
    (hholds : values.Holds pairs) (hgood : ∀ pair ∈ pairs, Fitting inputs pair) {i : Nat}
    {pair : ValuePair} (hget : pairs[i]? = some pair) {input : ModuleInput}
    (hkey : pair.key = some input.input_id.toNat) (hinput : input ∈ inputs) {value : Bytes}
    (hvalue : value.length = input.data_type.width.toNat) :
    ∃ values', pair.value.set value = some ⟨input.data_type, value⟩ ∧
      (values.modify i fun pair => { pair with value := ⟨input.data_type, value⟩ }) = some values' ∧
      values'.Holds (pairs.set i ⟨some input, ⟨input.data_type, value⟩⟩) ∧
      (pairs.set i ⟨some input, ⟨input.data_type, value⟩⟩).map ValuePair.key =
        pairs.map ValuePair.key := by
  obtain ⟨hi, rfl⟩ := List.getElem?_eq_some_iff.mp hget
  obtain ⟨own, hown, hpair, htype, hlength⟩ := hgood _ (List.getElem_mem hi)
  obtain rfl : own = input := by
    rw [ValuePair.key, hpair] at hkey
    exact hm.eq_of_id hown hinput (Option.some.inj hkey)
  have hset : pairs[i].value.set value = some ⟨own.data_type, value⟩ := by
    rw [DataValue.set, if_pos (by omega), htype, List.drop_of_length_le (by omega), List.append_nil]
  obtain ⟨values', hmodify, hholds'⟩ :=
    hholds.modify hi fun pair => { pair with value := ⟨own.data_type, value⟩ }
  rw [hpair] at hholds'
  exact ⟨values', hset, hmodify, hholds', SArray.map_set_of_eq hi hkey.symm⟩

theorem Assigned.set (h : Assigned m inputs mc) (hm : m.Identified inputs) {key : InputKey}
    {value : Bytes} (hcall : ∀ input, (forModule m).resolve key = some (some input) →
      m.HasInput input ∧ value.length = input.data_type.width.toNat) :
    ∃ mc', mc.set key value = some mc' ∧ Assigned m inputs mc' := by
  obtain ⟨found, hresolve, hfound⟩ := resolve_eq hm h.1 key
  cases found with
  | none =>
      refine ⟨mc, ?_, h⟩
      simp only [ModuleControl.set, value_of, hresolve, Option.bind_eq_bind, Option.bind_some,
        Option.pure_def]
  | some input =>
      obtain ⟨hhas, hwidth⟩ := hcall input hfound
      have hinput := mem_of_hasInput hm.contains hhas
      obtain ⟨after, i, pair, pairs, hvalue, hmodule, hmid, hclear, ⟨hholds, hkeys, hgood⟩, hpair,
        hkey⟩ := h.value_for hm hinput
      obtain ⟨values, hset, hmodify, hholds', hkeys'⟩ :=
        store_value hm hholds hgood hpair hkey hinput hwidth
      refine ⟨{ after with values }, ?_, hmodule, hmid, hclear, _, hholds', ?_, fun pair hmem => ?_⟩
      · simp only [ModuleControl.set, value_of, hresolve, Option.bind_eq_bind, Option.bind_some,
          hvalue, hholds.get, hpair, hset, hmodify, Option.pure_def]
      · rw [hkeys', hkeys]
        rfl
      · rcases List.mem_or_eq_of_mem_set hmem with hmem | rfl
        · exact hgood pair hmem
        · exact ⟨input, hinput, rfl, rfl, hwidth⟩

-- What a run of `clear` calls keeps.
def Neutral (m : Module) (inputs : List ModuleInput) (mc : ModuleControl) : Prop :=
  mc.module = some m ∧ mc.module_id = m.id ∧ mc.Carries (Fitting inputs) []

theorem Neutral.clear (h : Neutral m inputs mc) (hm : m.Addressable inputs) {key : InputKey}
    (hcall : ∀ input, (forModule m).resolve key = some (some input) → m.HasInput input) :
    ∃ mc', mc.clear key = some mc' ∧ Neutral m inputs mc' := by
  obtain ⟨hmodule, hmid, hcarries⟩ := h
  have hmodule' : ({ mc with input_ids := mc.input_ids ||| clearBit } : ModuleControl).module = some m :=
    hmodule
  obtain ⟨found, hresolve, hfound⟩ := resolve_eq hm.identified hmodule' key
  have hzero : mc.get_num_values = 0 := hcarries.length_eq.symm
  have hrun : ∃ mc', mc.clear key = some mc' := by
    rw [ModuleControl.clear, if_pos hzero]
    simp only [hresolve, Option.bind_eq_bind, Option.bind_some]
    cases found with
    | none => exact ⟨_, rfl⟩
    | some input =>
        have hinput := mem_of_hasInput hm.contains (hcall input hfound)
        have hid : input.input_id.toNat < 32 := (hm.identified.addresses hinput).2.trans (by decide)
        simp only [inputBit, if_pos hid, Option.bind_some]
        exact ⟨_, rfl⟩
  obtain ⟨mc', hrun⟩ := hrun
  have hany : mc.Carries (fun _ => True) [] := ⟨hcarries.1, hcarries.2.1, fun _ _ => trivial⟩
  obtain ⟨hstays, hmid', hholds, hclear⟩ := clear_after hany hrun
  refine ⟨mc', hrun, by rw [hstays, hmodule], by rw [hmid', hmid], hholds, ?_,
    fun pair hpair => absurd hpair List.not_mem_nil⟩
  rw [carried, if_pos hclear]
  rfl

-- All of `ops` have a result, one after the other, and leave a message with fitting values.
theorem run_carries (hm : m.Addressable inputs) {ops : List Op}
    (hops : (∀ op ∈ ops, op.Sets m) ∨ ∀ op ∈ ops, op.Clears m) :
    ∃ mc pairs, ops.foldlM Op.run (forModule m) = some mc ∧ mc.module_id = m.id ∧
      mc.Carries (Fitting inputs) pairs := by
  rcases hops with hsets | hclears
  · have hstep : ∀ mc, Assigned m inputs mc → ∀ op ∈ ops,
        ∃ mc', op.run mc = some mc' ∧ Assigned m inputs mc' := by
      intro mc h op hop
      obtain ⟨key, value, rfl, hcall⟩ := hsets op hop
      exact h.set hm.identified hcall
    have hstart : Assigned m inputs (forModule m) :=
      ⟨rfl, rfl, by simp [is_clear, forModule], [], carries_forModule m⟩
    obtain ⟨mc, hrun, -, hid, -, pairs, hcarries⟩ := foldlM_inv hstep hstart
    exact ⟨mc, pairs, hrun, hid, hcarries⟩
  · have hstep : ∀ mc, Neutral m inputs mc → ∀ op ∈ ops,
        ∃ mc', op.run mc = some mc' ∧ Neutral m inputs mc' := by
      intro mc h op hop
      obtain ⟨key, rfl, hcall⟩ := hclears op hop
      exact h.clear hm hcall
    have hstart : Neutral m inputs (forModule m) := ⟨rfl, rfl, carries_forModule m⟩
    obtain ⟨mc, hrun, -, hid, hcarries⟩ := foldlM_inv hstep hstart
    exact ⟨mc, [], hrun, hid, hcarries⟩

end Runs

theorem scalar_of_fitting (hm : m.Controllable inputs) {pair : ValuePair} (h : Fitting inputs pair) :
    pair.Scalar := by
  obtain ⟨input, hmem, -, htype, -⟩ := h
  intro harray
  rw [htype, hm.not_array input hmem] at harray
  exact absurd harray (by decide)

-- The message that a run makes arrives as it was sent.
theorem run_roundTrips [Heap] {config : Configuration} {modules : List Module}
    (hconfig : config.Controllable modules) (hm : m ∈ modules) {ops : List Op}
    (hops : (∀ op ∈ ops, op.Sets m) ∨ ∀ op ∈ ops, op.Clears m) :
    ∃ mc, ops.foldlM Op.run (forModule m) = some mc ∧ mc.RoundTrips config := by
  obtain ⟨inputs, hinputs⟩ := hconfig.controllable m hm
  obtain ⟨mc, pairs, hrun, hid, hcarries⟩ := run_carries hinputs.toAddressable hops
  have hscalar : ∀ pair ∈ pairs, pair.Scalar := fun pair hpair =>
    scalar_of_fitting hinputs (hcarries.2.2 pair hpair)
  have hget : config.modules.get mc.module_id.toNat = some m := hid ▸ hconfig.get hm
  exact ⟨mc, hrun, hcarries.roundTrips_of_fitting hget hinputs.toAddressable hscalar⟩

-- A value for the one input, a call for an input that is not there, and the value again.
def speedTwice : List Op :=
  [.set (.name speedName) [3], .set (.name turnName) [1, 2], .set (.name speedName) [4]]

theorem speedTwice_roundTrips : ∃ mc,
    speedTwice.foldlM Op.run (forModule Configuration.driveModule) = some mc ∧
      @RoundTrips Heap.zeros mc Configuration.drive := by
  let _ := Heap.zeros
  obtain ⟨modules, hconfig⟩ := (Configuration.drive_built.imp fun _ h => h.2).controllable
  have hget : modules[0]? = some Configuration.driveModule := by
    rw [← hconfig.contains.get]
    exact (Option.some_get _).symm
  have hspeed : ∀ input, (forModule Configuration.driveModule).resolve (.name speedName) =
      some (some input) →
      Configuration.driveModule.HasInput input ∧ 1 = input.data_type.width.toNat := by
    intro input hinput
    obtain rfl : Configuration.speedInput = input :=
      Option.some.inj (Option.some.inj (Eq.trans (by decide) hinput))
    exact ⟨⟨[Configuration.speedInput], by decide, by simp⟩, by decide⟩
  have hturn : (forModule Configuration.driveModule).resolve (.name turnName) = some none := by
    decide
  refine run_roundTrips hconfig (List.mem_of_getElem? hget) (.inl fun op hop => ?_)
  simp only [speedTwice, List.mem_cons, List.not_mem_nil, or_false] at hop
  obtain rfl | rfl | rfl := hop
  · exact ⟨_, _, rfl, hspeed⟩
  · exact ⟨_, _, rfl, fun input hinput => absurd (hturn.symm.trans hinput) (by simp)⟩
  · exact ⟨_, _, rfl, hspeed⟩

end ModuleControl

end RoboCrisp.Comms
