import RoboCrisp.Comms.Configuration.Objects

namespace RoboCrisp.Comms

open RoboCrisp.Stream RoboCrisp.Util RoboCrisp.Transition

-- The invariant that lets copies and comparisons of objects come to their ends: there is all
-- that the counters and lengths announce.

section Stocked

variable {α : Type} {Good : α → Prop} {count : UInt8} {array array' other : SArray α} {v : α}
  {copyElement : α → Option α}

-- The array may have more elements than its counter says, once that has wrapped.
def Stocked (Good : α → Prop) (count : UInt8) (array : SArray α) : Prop :=
  ∃ elements, array.Holds elements ∧ count.toNat ≤ elements.length ∧ ∀ v ∈ elements, Good v

theorem stocked_empty : Stocked Good 0 (.empty : SArray α) :=
  ⟨[], SArray.holds_empty, Nat.le_refl 0, by simp⟩

theorem stocked_alloc (capacity : Nat) : Stocked Good 0 (.alloc capacity : SArray α) :=
  ⟨[], SArray.holds_alloc capacity, Nat.le_refl 0, by simp⟩

theorem Stocked.clear (h : Stocked Good count array) : Stocked Good 0 array.clear := by
  obtain ⟨elements, hholds, -, -⟩ := h
  exact ⟨[], hholds.clear, Nat.le_refl 0, by simp⟩

theorem Stocked.push (h : Stocked Good count array) (hv : Good v)
    (hpush : array.push v = some array') : Stocked Good (count + 1) array' := by
  obtain ⟨elements, hholds, hcount, hgood⟩ := h
  refine ⟨_, SArray.collects_holds.push hholds hpush, ?_, forall_mem_concat hgood hv⟩
  rw [UInt8.toNat_add, List.length_append, List.length_singleton]
  exact (Nat.mod_le _ _).trans (Nat.succ_le_succ hcount)

theorem Stocked.modify (h : Stocked Good count array) {n : Nat} {f : α → α}
    (hmodify : array.modify n f = some array')
    (hf : ∀ v, array.get n = some v → Good v → Good (f v)) : Stocked Good count array' := by
  obtain ⟨elements, hholds, hcount, hgood⟩ := h
  obtain ⟨hn, hholds'⟩ := hholds.of_modify hmodify
  refine ⟨_, hholds', by rwa [List.length_set], fun v hv => ?_⟩
  rcases List.mem_or_eq_of_mem_set hv with hv | rfl
  · exact hgood v hv
  · exact hf _ (by rw [hholds.get, List.getElem?_eq_getElem hn]) (hgood _ (List.getElem_mem hn))

theorem Stocked.get (h : Stocked Good count array) {n : Nat} (hget : array.get n = some v) : Good v := by
  obtain ⟨elements, hholds, -, hgood⟩ := h
  rw [hholds.get] at hget
  exact hgood v (List.mem_of_getElem? hget)

theorem Stocked.copy (h : Stocked Good count array)
    (hkeep : ∀ v w, Good v → copyElement v = some w → Good w)
    (hcopy : array.copy copyElement = some array') : Stocked Good count array' := by
  obtain ⟨elements, hholds, hcount, hgood⟩ := h
  obtain ⟨copies, hholds', hcopies⟩ := hholds.copy hcopy
  exact ⟨copies, hholds', hcopies.length_eq ▸ hcount, SArray.good_of_copies hkeep hgood hcopies⟩

theorem Stocked.assign (h : Stocked Good count array) (hclear : other.clear.Holds [])
    (hkeep : ∀ v w, Good v → copyElement v = some w → Good w)
    (hassign : other.assign copyElement array = some array') : Stocked Good count array' := by
  obtain ⟨elements, hholds, hcount, hgood⟩ := h
  obtain ⟨copies, hholds', hcopies⟩ := SArray.collects_holds.assign hholds.elems hclear hassign
  exact ⟨copies, hholds', hcopies.length_eq ▸ hcount, SArray.good_of_copies hkeep hgood hcopies⟩

end Stocked

namespace Module

variable {m m' o : Module}

structure Copyable (m : Module) : Prop where
  spelled : m.Spelled
  inputs : Stocked (fun v => v.toNamedTyped.Spelled) m.num_inputs m.inputs
  sensors : Stocked (fun v => v.toNamedTyped.Spelled) m.num_sensors m.sensors

theorem copyable_empty : empty.Copyable :=
  ⟨⟨⟨[], nameIs_nil none⟩, by simp [empty]⟩, stocked_empty, stocked_empty⟩

theorem copyable_declare (name : Option CString) (inputs_capacity sensors_capacity : UInt8) :
    (declare name inputs_capacity sensors_capacity).Copyable := by
  obtain ⟨chars, hname, -⟩ := nameIs_ofName name
  exact ⟨⟨⟨chars, hname⟩, fun howns => absurd howns (by simp [declare, empty])⟩, stocked_alloc _,
    stocked_alloc _⟩

theorem Copyable.with_id (h : m.Copyable) (id : UInt8) : ({ m with id } : Module).Copyable :=
  ⟨⟨h.spelled.name, h.spelled.name_ne⟩, h.inputs, h.sensors⟩

-- A name that is not owned stays behind as it is.
theorem Spelled.reset (h : m.Spelled) : m.reset.Spelled := by
  refine ⟨?_, fun howns => absurd howns (by simp [Module.reset])⟩
  simp only [Module.reset]
  split
  · exact ⟨[], nameIs_nil _⟩
  · exact h.name

theorem Copyable.reset (h : m.Copyable) : m.reset.Copyable :=
  ⟨h.spelled.reset, h.inputs.clear, h.sensors.clear⟩

theorem Copyable.assignSelf (h : m.Copyable) : m.assignSelf.Copyable := by
  obtain ⟨hspelled, hinputs, hsensors⟩ := h.reset
  refine ⟨⟨hspelled.name, hspelled.name_ne⟩, ?_, ?_⟩
  · obtain ⟨elements, hholds, -, -⟩ := hinputs
    exact ⟨[], (hholds.clear.ensure_capacity _).1, Nat.le_refl 0, by simp⟩
  · obtain ⟨elements, hholds, -, -⟩ := hsensors
    exact ⟨[], (hholds.clear.ensure_capacity _).1, Nat.le_refl 0, by simp⟩

theorem Spelled.copied (h : m.Spelled) {name : Option Bytes}
    (hcopied : NameCopied m.owns_name m.name_length m.name name) (inputs : SArray ModuleInput)
    (sensors : SArray Sensor) : ({ m with name, inputs, sensors } : Module).Spelled := by
  refine ⟨hcopied.exists_nameIs h.name, fun howns => ?_⟩
  cases hcopied with
  | shared _ => exact h.name_ne howns
  | owned _ _ _ => simp

theorem Copyable.copy (h : m.Copyable) (hcopy : m.copy = some m') : m'.Copyable := by
  obtain ⟨name, inputs, sensors, hcopied, hinputs, hsensors, rfl⟩ := copy_cases hcopy
  exact ⟨h.spelled.copied hcopied inputs sensors, h.inputs.copy ModuleInput.spelled_copy hinputs,
    h.sensors.copy Sensor.spelled_copy hsensors⟩

theorem Copyable.assign (h : m.Copyable) (ho : o.Copyable) (hassign : m.assign o = some m') :
    m'.Copyable := by
  obtain ⟨name, inputs, sensors, hcopied, hinputs, hsensors, rfl⟩ := assign_cases hassign
  obtain ⟨is, his, -, -⟩ := h.inputs
  obtain ⟨ss, hss, -, -⟩ := h.sensors
  exact ⟨ho.spelled.copied hcopied inputs sensors,
    ho.inputs.assign his.clear.clear ModuleInput.spelled_copy hinputs,
    ho.sensors.assign hss.clear.clear Sensor.spelled_copy hsensors⟩

theorem Copyable.add_input (h : m.Copyable) {input : ModuleInput} (hinput : input.toNamedTyped.Spelled)
    (hadd : m.add_input input = some m') : m'.Copyable := by
  obtain ⟨copied, hcopy, hadd⟩ := Option.bind_eq_some_iff.mp hadd
  obtain ⟨pushed, hpush, hadd⟩ := Option.bind_eq_some_iff.mp hadd
  obtain ⟨back, -, hadd⟩ := Option.bind_eq_some_iff.mp hadd
  obtain ⟨inputs, hmodify, hadd⟩ := Option.bind_eq_some_iff.mp hadd
  obtain rfl := Option.some.inj hadd
  have hpushed := h.inputs.push (input.spelled_copy copied hinput hcopy) hpush
  exact ⟨⟨h.spelled.name, h.spelled.name_ne⟩, hpushed.modify hmodify fun _ _ hv => hv, h.sensors⟩

theorem Copyable.add_sensor (h : m.Copyable) {sensor : Sensor} (hsensor : sensor.toNamedTyped.Spelled)
    (hadd : m.add_sensor sensor = some m') : m'.Copyable := by
  obtain ⟨copied, hcopy, hadd⟩ := Option.bind_eq_some_iff.mp hadd
  obtain ⟨pushed, hpush, hadd⟩ := Option.bind_eq_some_iff.mp hadd
  obtain ⟨last, -, hadd⟩ := Option.bind_eq_some_iff.mp hadd
  obtain ⟨sensors, hmodify, hadd⟩ := Option.bind_eq_some_iff.mp hadd
  obtain rfl := Option.some.inj hadd
  have hpushed := h.sensors.push (sensor.spelled_copy copied hsensor hcopy) hpush
  exact ⟨⟨h.spelled.name, h.spelled.name_ne⟩, h.inputs, hpushed.modify hmodify fun _ _ hv => hv⟩

theorem Copyable.yields_decode [Heap] (h : m.Copyable) :
    Decoder.Yields m.decode fun out => out.1 = .SUCCESS ∧ out.2.Copyable := by
  obtain ⟨is, his, -, -⟩ := h.inputs
  obtain ⟨ss, hss, -, -⟩ := h.sensors
  intro cursor out last hrun
  obtain ⟨hr, hspelled, ⟨is', his', hicount, higood⟩, ss', hss', hscount, hsgood⟩ :=
    yields_stored SArray.collects_holds SArray.collects_holds ModuleInput.yields_spelled
      Sensor.yields_spelled his.clear hss.clear cursor out last hrun
  exact ⟨hr, hspelled, ⟨is', his', Nat.le_of_eq hicount, higood⟩, ss', hss', Nat.le_of_eq hscount,
    hsgood⟩

end Module

namespace Configuration

variable {c c' o : Configuration} {i : Nat}

def Copyable (c : Configuration) : Prop := Stocked Module.Copyable c.num_modules c.modules

theorem copyable_empty (modules_alloc : UInt8) : (empty modules_alloc).Copyable := stocked_alloc _

theorem Copyable.reset (h : c.Copyable) : c.reset.Copyable := Stocked.clear h

theorem Copyable.get (h : c.Copyable) {m : Module} (hget : c.modules.get i = some m) : m.Copyable :=
  Stocked.get h hget

theorem Copyable.add_module (h : c.Copyable) {args : ModuleArgs}
    (hargs : ∀ o, args = .copy o → o.Copyable) (hadd : c.add_module args = some c') : c'.Copyable := by
  obtain ⟨out, hout, hadd⟩ := Option.bind_eq_some_iff.mp hadd
  obtain ⟨array, hpush, hadd⟩ := Option.bind_eq_some_iff.mp hadd
  obtain rfl := Option.some.inj hadd
  have hout : out.Copyable := ModuleArgs.construct_keeps Module.copyable_empty
    Module.copyable_declare (fun _ _ hm hcopy => hm.copy hcopy) hargs hout
  exact Stocked.push h (hout.with_id c.next_module_id) hpush

theorem Copyable.update (h : c.Copyable) {f : Module → Option Module} (hupdate : c.update i f = some c')
    (hkeep : ∀ m m', m.Copyable → f m = some m' → m'.Copyable) : c'.Copyable := by
  obtain ⟨m, m', modules, hget, hf, hmodify, rfl⟩ := size_update hupdate
  exact Stocked.modify h hmodify fun _ _ _ => hkeep m m' (h.get hget) hf

theorem Copyable.assign (h : c.Copyable) (ho : o.Copyable) (hassign : c.assign o = some c') :
    c'.Copyable := by
  obtain ⟨modules, hmodules, hassign⟩ := Option.bind_eq_some_iff.mp hassign
  obtain rfl := Option.some.inj hassign
  obtain ⟨old, hold, -, -⟩ := h
  exact Stocked.assign ho hold.clear (fun _ _ hm hcopy => hm.copy hcopy) hmodules

theorem Copyable.yields_decode [Heap] (h : c.Copyable) :
    Decoder.Yields c.decode fun out => out.2.Copyable := by
  obtain ⟨old, hold, -, -⟩ := h
  intro cursor out last hrun
  obtain ⟨modules, hholds, hcount, hcopyable⟩ := yields_stored SArray.collects_holds
    Module.copyable_empty.yields_decode hold.clear cursor out last hrun
  exact ⟨modules, hholds, Nat.le_of_eq hcount, hcopyable⟩

end Configuration

namespace Configurations

variable {ι : Type} [DecidableEq ι] {s u : Configurations ι} {e : ConfigurationEvent ι}

-- Nothing is moved out of an object, and no configuration is assigned to itself.
def Unmoved (_ : Configurations ι) : ConfigurationEvent ι → Prop
  | .assign i j => i ≠ j
  | .move_assign _ _ => False
  | .move_module _ _ _ _ => False
  | _ => True

def AllCopyable (s : Configurations ι) : Prop := ∀ i, (s i).Copyable

theorem AllCopyable.update (h : s.AllCopyable) {i : ι} {c : Configuration} (hc : c.Copyable) :
    AllCopyable (Function.update s i c) :=
  (Function.forall_update_iff s fun _ c => c.Copyable).mpr ⟨hc, fun i _ => h i⟩

theorem AllCopyable.step [Heap] (h : s.AllCopyable) (hunmoved : Unmoved s e)
    (hstep : step s e = some u) : u.AllCopyable := by
  cases step_steps hstep with
  | @add_module i source args c hargs hadd =>
      refine h.update ((h i).add_module (fun o ho => ?_) hadd)
      subst ho
      obtain ⟨j, l, hget⟩ := get_of_args hargs
      exact (h j).get hget
  | @add_input i _ name _ data_type owns_name _ hc =>
      refine h.update ((h i).update hc fun m m' hm hadd => ?_)
      exact hm.add_input (NamedTyped.spelled_ofName name data_type owns_name) hadd
  | @add_sensor i _ name _ data_type _ _ hc =>
      refine h.update ((h i).update hc fun m m' hm hadd => ?_)
      exact hm.add_sensor (NamedTyped.spelled_ofName (some name) data_type false) hadd
  | assign_self => exact absurd rfl hunmoved
  | @assign i j _ _ hassign => exact h.update ((h i).assign (h j) hassign)
  | move_self | move_assign | move_module_self | move_module => exact hunmoved.elim
  | @reset i => exact h.update (h i).reset
  | @decode i buf last _ _ hdecode => exact h.update ((h i).yields_decode buf _ last hdecode)
  | @assign_module_self i _ _ hc =>
      refine h.update ((h i).update hc fun m m' hm hassign => ?_)
      obtain rfl := Option.some.inj hassign
      exact hm.assignSelf
  | @assign_module i j _ _ _ _ ho hc =>
      exact h.update ((h i).update hc fun m m' hm hassign => hm.assign ((h j).get ho) hassign)
  | @reset_module i _ _ hc =>
      refine h.update ((h i).update hc fun m m' hm hreset => ?_)
      obtain rfl := Option.some.inj hreset
      exact hm.reset
  | @decode_module i _ buf _ hc =>
      refine h.update ((h i).update hc fun m m' hm hdecode => ?_)
      obtain ⟨⟨⟨r, out⟩, last⟩, hrun, hout⟩ := Option.bind_eq_some_iff.mp hdecode
      obtain rfl := Option.some.inj hout
      exact (hm.yields_decode buf _ last hrun).2

theorem copyable_run [Heap] (modules_alloc : ι → UInt8) {trace : List (ConfigurationEvent ι)}
    (hrun : Run step Unmoved (fun i => .empty (modules_alloc i)) trace u) : u.AllCopyable :=
  hrun.invariant (fun i => Configuration.copyable_empty (modules_alloc i))
    fun h hunmoved hstep => h.step hunmoved hstep

end Configurations

end RoboCrisp.Comms
