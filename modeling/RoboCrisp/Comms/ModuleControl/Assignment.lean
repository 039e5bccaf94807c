import RoboCrisp.Comms.ModuleControl.Arrays
import RoboCrisp.Comms.ModuleControl.Recursion
import RoboCrisp.Comms.ModuleControl.Written

namespace RoboCrisp.Comms

open RoboCrisp.Stream RoboCrisp.Util

namespace Module

-- A module that has been given its inputs one by one.
inductive Grown : Module → Prop
  | empty (id : UInt8) : Grown { Module.empty with id }
  | declare (name : Option CString) (inputs_capacity sensors_capacity id : UInt8) :
      Grown { Module.declare name inputs_capacity sensors_capacity with id }
  | add_input {m m' : Module} (name : Option CString) (id : UInt8) (data_type : DataDeclaration)
      (owns_name : Bool) (hm : Grown m)
      (hadd : m.add_input (ModuleInput.declare name id data_type owns_name) = some m') : Grown m'

variable {m : Module}

theorem Grown.dense (h : m.Grown) (hlimit : m.inputs.size ≤ 255) : m.Dense fun _ => True := by
  induction h with
  | empty id => exact dense_empty.with_id id
  | declare name inputs_capacity sensors_capacity id => exact (dense_declare _ _ _).with_id id
  | add_input name id data_type owns_name hm hadd ih =>
      have hsize := (size_add_input hadd).1
      exact ((ih (by omega)).add_input (NamedTyped.plain_ofName name owns_name trivial) hadd hlimit).1

theorem Grown.add_inputs {m' : Module} {name : Option CString} {id : UInt8} {data_type : DataDeclaration}
    {owns_name : Bool} {count : Nat} (h : m.Grown)
    (hrun : (List.replicate count (ModuleInput.declare name id data_type owns_name)).foldlM
      Module.add_input m = some m') : m'.Grown := by
  induction count generalizing m with
  | zero =>
      obtain rfl := Option.some.inj hrun
      exact h
  | succ count ih =>
      rw [List.replicate_succ, List.foldlM_cons] at hrun
      obtain ⟨next, hadd, hrest⟩ := Option.bind_eq_some_iff.mp hrun
      exact ih (h.add_input name id data_type owns_name hadd) hrest

end Module

-- A value for an input of a module.
structure Setting where
  input : ModuleInput
  value : Bytes

namespace Setting

-- The value has the width that the input declares.
def Declared (m : Module) (setting : Setting) : Prop :=
  m.HasInput setting.input ∧ setting.value.length = setting.input.data_type.width.toNat

def id (setting : Setting) : Nat := setting.input.input_id.toNat

def pair (setting : Setting) : ValuePair := ⟨some setting.input, ⟨setting.input.data_type, setting.value⟩⟩

end Setting

namespace ModuleControl

-- Calls of `set`, one for each of the settings.
def Assigns (m : Module) (settings : List Setting) (ops : List Op) : Prop :=
  List.Forall₂ (fun setting op => ∃ key, op = Op.set key setting.value ∧
    (forModule m).resolve key = some (some setting.input)) settings ops

-- The message is no clear message, and what is decoded from its bytes are the settings.
def Conveys (config : Configuration) (m : Module) (settings : List Setting) (ops : List Op) : Prop :=
  ∃ mc bytes, ops.foldlM Op.run (forModule m) = some mc ∧ mc.is_clear = false ∧
    Encoder.Stores mc.encode bytes .SUCCESS ∧
    ∀ (_ : Heap) (buf : DecodeBuffer) (suffix : Bytes), buf.rest = bytes ++ suffix →
      ∃ out outs, decode_copy config buf = some (out, buf.advance bytes.length) ∧
        out.values.elems = some outs ∧ (outs.map fun pair => (pair.input, pair.value.value)).Perm
          (settings.map fun setting => (some setting.input, setting.value))

variable {m : Module} {inputs : List ModuleInput} {mc mc' : ModuleControl} {ids : List Nat}
  {pairs : List ValuePair} {settings : List Setting} {ops : List Op} {config : Configuration}

theorem fitting_pair (hm : m.Indexed inputs) {setting : Setting} (h : setting.Declared m) :
    Fitting inputs setting.pair :=
  ⟨setting.input, mem_of_hasInput hm.contains h.1, rfl, rfl, h.2⟩

-- A value for an input that has none.
theorem Written.assign (h : Written (Fitting inputs) m mc ids pairs) (hm : m.Indexed inputs)
    {setting : Setting} (hdeclared : setting.Declared m) {key : InputKey}
    (hkey : (forModule m).resolve key = some (some setting.input)) (hclear : mc.is_clear = false)
    (hid : setting.id < 15) (hnew : setting.id ∉ ids) :
    ∃ mc' ids' pairs', mc.set key setting.value = some mc' ∧ Written (Fitting inputs) m mc' ids' pairs' ∧
      mc'.is_clear = false ∧ (∀ id, id ∈ ids' ↔ id ∈ ids ∨ id = setting.id) ∧
      ∀ pair, pair ∈ pairs' ↔ pair = setting.pair ∨ pair ∈ pairs := by
  have hmem := mem_of_hasInput hm.contains hdeclared.1
  have hlt : setting.input.input_id < m.num_inputs := hm.id_lt_num_inputs hmem
  have hlow : setting.input.input_id.toNat < 16 := Nat.lt_succ_of_lt hid
  have hunset : mc.input_ids.getLsbD setting.input.input_id.toNat ≠ true := fun hbit =>
    hnew (h.backed hclear _ hbit)
  have hresolve := (resolve_of_module h.module_eq key).trans hkey
  obtain ⟨old, hfound, -, hroom⟩ := h.set_found hlt hlow hresolve setting.value
    fun hbit => absurd hbit hunset
  cases hfound with
  | there _ _ hbit => exact absurd hbit hunset
  | added hold _ =>
      have hwidth : old.value.value.length = setting.value.length := by
        rw [hold, hdeclared.2]
        exact List.length_replicate
      have hput : old.put setting.value = setting.pair := by
        rw [ValuePair.put, DataValue.put, List.drop_of_length_le (Nat.le_of_eq hwidth), List.append_nil,
          hold]
        rfl
      obtain ⟨mc', ids', pairs', hset, hchanged, hpairs⟩ := hroom (Nat.le_of_eq hwidth.symm)
      have hpairs' : ∀ pair, pair ∈ pairs' ↔ pair = setting.pair ∨ pair ∈ pairs := by
        intro pair
        rw [hpairs, hput]
        refine or_congr_right (and_iff_left_of_imp fun hpair hkey => hnew ?_)
        exact (ValuePair.mem_ids h.keys).mpr ⟨pair, hpair, hkey⟩
      refine ⟨mc', ids', pairs', hset, h.changed hlow hchanged fun pair hpair => ?_, ?_,
        hchanged.mem_ids, hpairs'⟩
      · rcases (hpairs' pair).mp hpair with rfl | hpair
        · exact fitting_pair hm hdeclared
        · exact h.good pair hpair
      · have hne : setting.input.input_id.toNat ≠ 15 := Nat.ne_of_lt hid
        rw [is_clear, hchanged.input_ids_eq, getLsbD_or_twoPow hlow, decide_eq_false hne, Bool.or_false]
        exact hclear

-- The calls for settings below the clear bit all find room.
theorem Written.assigns (h : Written (Fitting inputs) m mc ids pairs) (hm : m.Indexed inputs)
    (hassigns : Assigns m settings ops) (hdeclared : ∀ setting ∈ settings, setting.Declared m)
    (hdistinct : (settings.map Setting.id).Nodup) (hclear : mc.is_clear = false)
    (hids : ∀ setting ∈ settings, setting.id < 15 ∧ setting.id ∉ ids) :
    ∃ mc' ids' pairs', ops.foldlM Op.run mc = some mc' ∧ Written (Fitting inputs) m mc' ids' pairs' ∧
      mc'.is_clear = false ∧
      ∀ pair, pair ∈ pairs' ↔ pair ∈ pairs ∨ pair ∈ settings.map Setting.pair := by
  induction hassigns generalizing mc ids pairs with
  | nil => exact ⟨mc, ids, pairs, rfl, h, hclear, fun pair => by simp⟩
  | @cons setting op settings ops hcall _ ih =>
      obtain ⟨key, rfl, hkey⟩ := hcall
      obtain ⟨hid, hnew⟩ := hids setting List.mem_cons_self
      obtain ⟨hfresh, hdistinct⟩ := List.nodup_cons.mp hdistinct
      obtain ⟨mc', ids', pairs', hset, h', hclear', hids', hpairs'⟩ := h.assign hm
        (hdeclared setting List.mem_cons_self) hkey hclear hid hnew
      obtain ⟨last, ids'', pairs'', hrun, hlast, hclear'', hpairs''⟩ := ih h'
        (fun other hother => hdeclared other (List.mem_cons_of_mem _ hother)) hdistinct hclear' (by
          intro other hother
          obtain ⟨hlow, hother'⟩ := hids other (List.mem_cons_of_mem _ hother)
          refine ⟨hlow, fun hmem => ?_⟩
          rcases (hids' _).mp hmem with hmem | hsame
          · exact hother' hmem
          · exact hfresh (hsame ▸ List.mem_map_of_mem hother))
      refine ⟨last, ids'', pairs'', ?_, hlast, hclear'', fun pair => ?_⟩
      · rw [List.foldlM_cons]
        exact (congrArg (Option.bind · _) hset).trans hrun
      · rw [hpairs'', hpairs', List.map_cons, List.mem_cons]
        tauto

-- A set bit stays, so that a value for the sixteenth input turns the message into a clear message.
theorem Written.is_clear_of_set {Good : ValuePair → Prop} (h : Written Good m mc ids pairs)
    {key : InputKey} {value : Bytes} (hrun : mc.set key value = some mc')
    (hclear : mc.is_clear = true ∨ ∃ input, (forModule m).resolve key = some (some input) ∧
      input.input_id.toNat = 15) : mc'.is_clear = true := by
  obtain ⟨hrefuses, rfl⟩ | ⟨input, _, _, _, hresolve, hid, -, -, hchanged, -⟩ :=
    h.set_cases hrun
  · obtain hclear | ⟨input, hkey, hid⟩ := hclear
    · exact hclear
    · rw [← resolve_of_module h.module_eq] at hkey
      obtain hnone | ⟨input', hkey', hbit, -⟩ := hrefuses
      · rw [hkey] at hnone
        cases hnone
      · obtain rfl := Option.some.inj (Option.some.inj (hkey.symm.trans hkey'))
        rw [is_clear, ← hid]
        exact hbit
  · rw [is_clear, hchanged.input_ids_eq, getLsbD_or_twoPow hid]
    obtain hclear | ⟨input', hkey, hid'⟩ := hclear
    · rw [is_clear] at hclear
      rw [hclear, Bool.true_or]
    · rw [← resolve_of_module h.module_eq] at hkey
      obtain rfl := Option.some.inj (Option.some.inj (hkey.symm.trans hresolve))
      rw [hid', decide_eq_true rfl, Bool.or_true]

theorem is_clear_of_assigns {Good : ValuePair → Prop} (h : Written Good m mc ids pairs) (hgood : ∀ pair, Good pair)
    (hassigns : Assigns m settings ops) (hrun : ops.foldlM Op.run mc = some mc')
    (hclear : mc.is_clear = true ∨ ∃ setting ∈ settings, setting.id = 15) : mc'.is_clear = true := by
  induction hassigns generalizing mc ids pairs with
  | nil =>
      obtain rfl := Option.some.inj hrun
      obtain hclear | ⟨setting, hmem, -⟩ := hclear
      · exact hclear
      · exact absurd hmem List.not_mem_nil
  | @cons setting op settings ops hcall _ ih =>
      obtain ⟨key, rfl, hkey⟩ := hcall
      rw [List.foldlM_cons] at hrun
      obtain ⟨next, hset, hrest⟩ := Option.bind_eq_some_iff.mp hrun
      obtain ⟨ids', pairs', h'⟩ := h.set (fun _ _ _ _ _ _ => hgood _) hset
      refine ih h' hrest ?_
      obtain hclear | ⟨other, hother, hid⟩ := hclear
      · exact .inl (h.is_clear_of_set hset (.inl hclear))
      · rcases List.mem_cons.mp hother with rfl | hother
        · exact .inl (h.is_clear_of_set hset (.inr ⟨_, hkey, hid⟩))
        · exact .inr ⟨other, hother, hid⟩

theorem Written.stores (h : Written (Fitting inputs) m mc ids pairs) (hclear : mc.is_clear = false) :
    Encoder.Stores mc.encode (mc.encoding pairs) .SUCCESS := by
  rw [← wire_pieces]
  exact ((h.carries hclear).emits fun pair hpair => (h.good pair hpair).loadable).stores

section Settings

variable (h : Written (Fitting inputs) m mc ids pairs) (hm : m.Indexed inputs)
  (hget : config.modules.get m.id.toNat = some m) (hclear : mc.is_clear = false)
  (hrun : ops.foldlM Op.run (forModule m) = some mc) (hdistinct : (settings.map Setting.id).Nodup)
  (hpairs : ∀ pair, pair ∈ pairs ↔ pair ∈ settings.map Setting.pair)

include h hm hget hclear hrun hdistinct hpairs

theorem conveys_of_scalar (hscalar : ∀ setting ∈ settings, setting.pair.Scalar) :
    Conveys config m settings ops := by
  have hscalars : ∀ pair ∈ pairs, pair.Scalar := by
    intro pair hpair
    obtain ⟨setting, hsetting, rfl⟩ := List.mem_map.mp ((hpairs pair).mp hpair)
    exact hscalar setting hsetting
  refine ⟨mc, mc.encoding pairs, hrun, hclear, h.stores hclear, fun heap buf suffix hbuf => ?_⟩
  obtain ⟨out, hdecode, -, -, -, hholds⟩ := (h.carries hclear).exists_copy (h.module_id_eq ▸ hget) hm
    hscalars
  have hkeys := List.Nodup.of_map _ (nodup_keys h.keys h.ascending)
  have hsettings : (settings.map Setting.pair).Nodup := by
    have hids : (settings.map Setting.pair).map ValuePair.input_id = settings.map Setting.id := by
      rw [List.map_map]
      rfl
    exact List.Nodup.of_map ValuePair.input_id (hids ▸ hdistinct)
  have hperm : pairs.Perm (settings.map Setting.pair) :=
    (List.perm_ext_iff_of_nodup hkeys hsettings).mpr hpairs
  refine ⟨out, pairs, hdecode buf suffix hbuf, hholds.elems, ?_⟩
  have hmap := hperm.map fun pair => (pair.input, pair.value.value)
  rwa [List.map_map] at hmap

theorem scalar_of_conveys (hconveys : Conveys config m settings ops) :
    ∀ setting ∈ settings, setting.pair.Scalar := by
  obtain ⟨mc', bytes, hrun', -, hstores, hdecode⟩ := hconveys
  obtain rfl := Option.some.inj (hrun.symm.trans hrun')
  obtain rfl := Encoder.Stores.unique (h.stores hclear) hstores
  obtain ⟨out, outs, hcopy, helems, hperm⟩ := hdecode Heap.zeros (Cursor.ofList (mc.encoding pairs)) []
    (List.append_nil _).symm
  obtain ⟨⟨r, decoded⟩, buf', hrun, hcopy⟩ := bind_eq_some_iff.mp hcopy
  obtain ⟨rfl, rfl⟩ := Prod.mk.inj (pure_eq_some_iff.mp hcopy)
  have hcarries := h.carries hclear
  obtain ⟨outs', hholds, -, hsame, hscalar⟩ := hcarries.scalar_of_values hclear
    (h.module_id_eq ▸ hget) hm hrun
  obtain rfl := Option.some.inj (helems.symm.trans hholds.elems)
  have hall := hscalar ?_
  · exact fun setting hsetting => hall _ ((hpairs _).mpr (List.mem_map_of_mem hsetting))
  rw [List.forall₂_iff_get] at hsame ⊢
  refine ⟨hsame.1, fun i hi hi' => ?_⟩
  -- the input of a pair tells which of the settings it comes from
  obtain ⟨setting, hsetting, hpair⟩ := List.mem_map.mp ((hpairs _).mp (List.get_mem pairs ⟨i, hi'⟩))
  have hout := List.mem_map_of_mem (f := fun pair : ValuePair => (pair.input, pair.value.value))
    (List.get_mem outs ⟨i, hi⟩)
  obtain ⟨other, hother, heq⟩ := List.mem_map.mp (hperm.mem_iff.mp hout)
  obtain ⟨hinput, hvalue⟩ := Prod.mk.inj heq
  obtain rfl : other = setting := by
    refine List.inj_on_of_nodup_map hdistinct hother hsetting ?_
    have hinputs := hinput.trans (hsame.2 i hi hi').1
    rw [← hpair] at hinputs
    exact congrArg (fun input : ModuleInput => input.input_id.toNat) (Option.some.inj hinputs)
  have hload := (h.good _ (List.get_mem pairs ⟨i, hi'⟩)).loadable.load_eq
  rw [← hload, ← hvalue, ← hpair]
  rfl

end Settings

-- Every input below the clear bit can be set and arrives, unless it is an array.
theorem conveys_iff (hm : m.Grown) (hcount : m.inputs.size ≤ 16)
    (hget : config.modules.get m.id.toNat = some m) (hassigns : Assigns m settings ops)
    (hdeclared : ∀ setting ∈ settings, setting.Declared m)
    (hdistinct : (settings.map Setting.id).Nodup) :
    Conveys config m settings ops ↔
      ∀ setting ∈ settings, setting.id ≠ 15 ∧ setting.pair.Scalar := by
  obtain ⟨inputs, hinputs, hsize, -⟩ := (hm.dense (by omega)).indexed
  have hlow : (∀ setting ∈ settings, setting.id ≠ 15) → ∀ setting ∈ settings,
      setting.id < 15 ∧ setting.id ∉ ([] : List Nat) := by
    intro hne setting hsetting
    have hlt := hinputs.id_lt (mem_of_hasInput hinputs.contains (hdeclared setting hsetting).1)
    have := hne setting hsetting
    rw [Setting.id] at this ⊢
    exact ⟨by omega, List.not_mem_nil⟩
  have hfresh : (forModule m).is_clear = false := by simp [is_clear, forModule]
  constructor
  · intro hconveys
    have hne : ∀ setting ∈ settings, setting.id ≠ 15 := by
      intro setting hsetting hid
      obtain ⟨mc, bytes, hrun, hclear, -⟩ := hconveys
      rw [is_clear_of_assigns (written_forModule (fun _ => True) m) (fun _ => trivial) hassigns hrun
        (.inr ⟨setting, hsetting, hid⟩)] at hclear
      cases hclear
    obtain ⟨mc, ids, pairs, hrun, h, hclear, hpairs⟩ := (written_forModule _ m).assigns hinputs hassigns
      hdeclared hdistinct hfresh (hlow hne)
    have hscalar := scalar_of_conveys h hinputs hget hclear hrun hdistinct
      (fun pair => (hpairs pair).trans (by simp)) hconveys
    exact fun setting hsetting => ⟨hne setting hsetting, hscalar setting hsetting⟩
  · intro hall
    obtain ⟨mc, ids, pairs, hrun, h, hclear, hpairs⟩ := (written_forModule _ m).assigns hinputs hassigns
      hdeclared hdistinct hfresh (hlow fun setting hsetting => (hall setting hsetting).1)
    exact conveys_of_scalar h hinputs hget hclear hrun hdistinct
      (fun pair => (hpairs pair).trans (by simp)) fun setting hsetting => (hall setting hsetting).2

theorem driveModule_grown : Configuration.driveModule.Grown :=
  .add_input (some speedName) 0 Configuration.speed false
    (.declare (some ⟨[100, 114, 105, 118, 101], by decide⟩) 2 0 0) (by decide)

def threeSetting : Setting := ⟨Configuration.speedInput, [3]⟩

theorem three_conveys : Conveys Configuration.drive Configuration.driveModule [threeSetting]
    [.set (.name speedName) [3]] := by
  have hdeclared : threeSetting.Declared Configuration.driveModule :=
    ⟨⟨_, rfl, by decide⟩, by decide⟩
  refine (conveys_iff driveModule_grown (by decide) (by decide)
    (.cons ⟨.name speedName, rfl, by decide⟩ .nil) (fun setting hsetting => ?_)
    (List.nodup_singleton _)).mpr fun setting hsetting => ?_
  · rw [List.mem_singleton.mp hsetting]
    exact hdeclared
  · rw [List.mem_singleton.mp hsetting]
    exact ⟨by decide, by unfold ValuePair.Scalar; decide⟩

-- Sixteen inputs, as many as the mask has bits.
def full : Configuration :=
  ((Configuration.BuildStep.add_module .none :: List.replicate 16
    (.add_input 0 none 0 { DataDeclaration.empty with width := 1 } false)).foldlM
      Configuration.BuildStep.run (Configuration.empty 0)).get (by decide +kernel)

def fullPanel : Module := (panel 16).get (by decide +kernel)

def sixteenth : Setting := ⟨(fullPanel.inputs.get 15).get (by decide +kernel), [1]⟩

theorem sixteenth_not_conveys : fullPanel.Grown ∧ fullPanel.inputs.size = 16 ∧
    full.modules.get fullPanel.id.toNat = some fullPanel ∧ sixteenth.Declared fullPanel ∧
    ¬Conveys full fullPanel [sixteenth] [.set (.input sixteenth.input) [1]] := by
  refine ⟨(Module.Grown.empty 0).add_inputs (Option.some_get _).symm, by decide +kernel,
    by decide +kernel, ⟨⟨_, (Option.some_get (by decide +kernel)).symm, by decide +kernel⟩,
      by decide +kernel⟩, ?_⟩
  rintro ⟨mc, bytes, hrun, hclear, -⟩
  have hall : ∀ mc ∈ [Op.set (.input sixteenth.input) [1]].foldlM Op.run (forModule fullPanel),
      mc.is_clear = true := by
    decide +kernel
  rw [hall mc hrun] at hclear
  cases hclear

end ModuleControl

end RoboCrisp.Comms
