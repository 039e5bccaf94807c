import RoboCrisp.Comms.Configuration.Counters
import RoboCrisp.Transition.Run
import Mathlib.Logic.Function.Basic

namespace RoboCrisp.Comms

open RoboCrisp.Stream RoboCrisp.Util RoboCrisp.Transition

namespace Configuration

variable {c c' o : Configuration} {modules : List Module} {i : Nat} {f : Module → Option Module}

structure Counted (c : Configuration) : Prop where
  counts : Counts c.num_modules c.modules
  modules : ∀ modules, c.modules.elems = some modules → ∀ m ∈ modules, m.Counted

def Filled (c : Configuration) : Prop :=
  ∃ modules, Tallies c.num_modules modules c.modules ∧ ∀ m ∈ modules, m.Filled

theorem Filled.counted (h : c.Filled) : c.Counted := by
  obtain ⟨modules, htallies, hfilled⟩ := h
  refine ⟨htallies.counts, fun modules' helems m hm => ?_⟩
  obtain rfl := Option.some.inj (htallies.contains.elems.symm.trans helems)
  exact (hfilled m hm).counted

theorem not_counted_of_mem (h : c.modules.Contains modules) {m : Module} (hm : m ∈ modules)
    (hnot : ¬m.Counted) : ¬c.Counted :=
  fun hcounted => hnot (hcounted.modules modules h.elems m hm)

theorem filled_empty (modules_alloc : UInt8) : (empty modules_alloc).Filled :=
  ⟨[], tallies_alloc _, by simp⟩

theorem Numbered.filled {Declared : DataDeclaration → Prop} {next : UInt8} (h : c.Numbered Declared next) : c.Filled := by
  obtain ⟨modules, hholds, horder, hcount, -⟩ := h
  refine ⟨modules, ⟨.inl hholds, hcount⟩, fun m hm => ?_⟩
  obtain ⟨inputs, hinputs, -, hicount, -⟩ := (horder.good m hm).inputs
  obtain ⟨sensors, hsensors, -, hscount, -⟩ := (horder.good m hm).sensors
  exact ⟨⟨inputs, .inl hinputs, hicount⟩, sensors, .inl hsensors, hscount⟩

theorem Filled.reset (h : c.Filled) : c.reset.Filled := by
  obtain ⟨modules, htallies, -⟩ := h
  exact ⟨[], htallies.clear, by simp⟩

theorem Filled.movedFrom (h : c.Filled) (hsize : c.modules.size = 0) : c.movedFrom.Filled := by
  obtain ⟨modules, htallies, -⟩ := h
  exact ⟨[], htallies.movedFrom hsize, by simp⟩

theorem Filled.moveSelf (h : c.Filled) (hsize : c.modules.size = 0) : c.moveSelf.Filled := by
  obtain ⟨modules, htallies, -⟩ := h
  exact ⟨[], htallies.moveSelf hsize, by simp⟩

theorem Filled.assignSelf (h : c.Filled) (hsize : c.modules.size = 0) : c.assignSelf.Filled := by
  obtain ⟨modules, htallies, -⟩ := h
  exact ⟨[], htallies.assignSelf hsize, by simp⟩

theorem Filled.get (h : c.Filled) {m : Module} (hget : c.modules.get i = some m) : m.Filled := by
  obtain ⟨modules, htallies, hfilled⟩ := h
  rw [htallies.contains.get] at hget
  exact hfilled m (List.mem_of_getElem? hget)

theorem Filled.assign (h : c.Filled) (ho : o.Filled) (hassign : c.assign o = some c') : c'.Filled := by
  obtain ⟨old, hold, -⟩ := h
  obtain ⟨modules, htallies, hfilled⟩ := ho
  obtain ⟨array, harray, hassign⟩ := Option.bind_eq_some_iff.mp hassign
  obtain rfl := Option.some.inj hassign
  obtain ⟨copies, hcontains, hcopies⟩ := htallies.contains.assign hold.contains harray
  exact ⟨copies, htallies.of_length hcontains hcopies.length_eq, SArray.good_of_copies
    (fun _ _ hm hcopy => hm.copy hcopy) hfilled hcopies⟩

theorem Filled.add_module (h : c.Filled) {args : ModuleArgs} (hargs : ∀ o, args = .copy o → o.Filled)
    (hsize : c.modules.size < 255) (hadd : c.add_module args = some c') : c'.Filled := by
  obtain ⟨modules, htallies, hfilled⟩ := h
  obtain ⟨out, hout, hadd⟩ := Option.bind_eq_some_iff.mp hadd
  obtain ⟨array, hpush, hadd⟩ := Option.bind_eq_some_iff.mp hadd
  obtain rfl := Option.some.inj hadd
  have hout : out.Filled := ModuleArgs.construct_keeps Module.filled_empty Module.filled_declare
    (fun _ _ hm hcopy => hm.copy hcopy) hargs hout
  have hlast := hout.with_id c.next_module_id
  exact ⟨_, htallies.push hsize hpush, forall_mem_concat hfilled hlast⟩

theorem not_counted_add_module {args : ModuleArgs} (hsize : ¬c.modules.size < 255)
    (hadd : c.add_module args = some c') : ¬c'.Counted := by
  obtain ⟨out, -, hadd⟩ := Option.bind_eq_some_iff.mp hadd
  obtain ⟨array, hpush, hadd⟩ := Option.bind_eq_some_iff.mp hadd
  obtain rfl := Option.some.inj hadd
  exact fun hcounted => not_counts_grown hsize (SArray.size_push hpush) hcounted.counts

-- A call on a module puts its result in the place of the module.
theorem contains_update (h : c.modules.Contains modules) (hupdate : c.update i f = some c') :
    ∃ m m', modules[i]? = some m ∧ f m = some m' ∧ c'.num_modules = c.num_modules ∧
      c'.modules.Contains (modules.set i m') := by
  obtain ⟨m, m', array, hget, hf, hmodify, rfl⟩ := size_update hupdate
  rw [h.get] at hget
  obtain ⟨-, -, hcontains⟩ := contains_modify h hmodify
  exact ⟨m, m', hget, hf, rfl, hcontains⟩

theorem Filled.update (h : c.Filled) (hupdate : c.update i f = some c')
    (hkeep : ∀ m m', c.modules.get i = some m → f m = some m' → m'.Filled) : c'.Filled := by
  obtain ⟨modules, htallies, hfilled⟩ := h
  obtain ⟨m, m', hm, hf, hcount, hcontains⟩ := contains_update htallies.contains hupdate
  refine ⟨_, ⟨hcontains, ?_⟩, fun v hv => ?_⟩
  · rw [hcount, htallies.count_eq, List.length_set]
  · rcases List.mem_or_eq_of_mem_set hv with hv | rfl
    · exact hfilled v hv
    · exact hkeep m v (by rw [htallies.contains.get, hm]) hf

theorem Filled.not_counted_update (h : c.Filled) (hupdate : c.update i f = some c')
    (hbreak : ∀ m m', c.modules.get i = some m → f m = some m' → ¬m'.Counted) : ¬c'.Counted := by
  obtain ⟨modules, htallies, -⟩ := h
  obtain ⟨m, m', hm, hf, -, hcontains⟩ := contains_update htallies.contains hupdate
  obtain ⟨hi, -⟩ := List.getElem?_eq_some_iff.mp hm
  refine not_counted_of_mem hcontains (List.mem_set hi m') ?_
  exact hbreak m m' (by rw [htallies.contains.get, hm]) hf

-- Every module that is announced is stored, whatever there is to read.
theorem yields_stored [Heap] {Has : SArray Module → List Module → Prop} {Good : Module → Prop}
    (hcollects : SArray.Collects Has)
    (hgood : Decoder.Yields Module.empty.decode fun out => out.1 = .SUCCESS ∧ Good out.2)
    (hclear : Has c.modules.clear []) :
    Decoder.Yields c.decode fun out => ∃ modules, Has out.2.modules modules ∧
      out.2.num_modules.toNat = modules.length ∧ ∀ m ∈ modules, Good m := by
  have hturn : ∀ done (state : DecodeResult × SArray Module),
      (state.1 = .SUCCESS ∧ ∃ modules, Has state.2 modules ∧ done = modules.length ∧
        ∀ m ∈ modules, Good m) →
      Decoder.Yields (decode_module state) fun out => out.1 = .SUCCESS ∧
        ∃ modules, Has out.2 modules ∧ done + 1 = modules.length ∧ ∀ m ∈ modules, Good m := by
    rintro done ⟨r, array⟩ ⟨hr, modules, hhas, hlength, hmodules⟩
    obtain rfl : r = .SUCCESS := hr
    refine hgood.bind ?_
    rintro ⟨r, m⟩ ⟨hr, hm⟩
    obtain rfl : r = .SUCCESS := hr
    intro cursor out last hrun
    obtain ⟨array', _, hpush, hrun⟩ := bind_eq_some_iff.mp hrun
    obtain ⟨rfl, -⟩ := Prod.mk.inj (pure_eq_some_iff.mp hrun)
    exact ⟨rfl, _, hcollects.push hhas (lift_eq_some_iff.mp hpush).1, by simp [hlength],
      forall_mem_concat hmodules hm⟩
  unfold Configuration.decode
  refine Decoder.Yields.bind_any fun header => ?_
  split
  · rename_i num_modules
    have hgrown := hcollects.ensure_capacity num_modules.toNat hclear
    refine (Decoder.Yields.iterate_turns hturn num_modules.toNat
      ⟨rfl, [], hgrown, rfl, by simp⟩).bind ?_
    rintro ⟨r, array⟩ ⟨-, modules, hhas, hlength, hmodules⟩
    exact Decoder.Yields.pure ⟨modules, hhas, by simpa using hlength, hmodules⟩
  · exact Decoder.Yields.pure ⟨[], hclear, rfl, by simp⟩

theorem Filled.yields_decode [Heap] (h : c.Filled) :
    Decoder.Yields c.decode fun out => out.2.Filled := by
  obtain ⟨old, hold, -⟩ := h
  intro cursor out last hrun
  obtain ⟨modules, hcontains, hcount, hfilled⟩ := yields_stored SArray.collects_contains
    Module.filled_empty.yields_decode hold.clear.contains cursor out last hrun
  exact ⟨modules, ⟨hcontains, hcount⟩, hfilled⟩

end Configuration

-- What add_module is called with. A module to be copied has its place in some configuration.
inductive ModuleSource (ι : Type)
  | none
  | declare (name : Option CString) (inputs_capacity sensors_capacity : UInt8)
  | copy (i : ι) (k : Nat)

-- What is done to some configurations, and to the modules at some of their indices.
inductive ConfigurationEvent (ι : Type)
  | add_module (i : ι) (source : ModuleSource ι)
  | add_input (i : ι) (k : Nat) (name : Option CString) (id : UInt8) (data_type : DataDeclaration)
      (owns_name : Bool)
  | add_sensor (i : ι) (k : Nat) (name : CString) (type : SensorType) (data_type : DataDeclaration)
      (mode : SensorReportingMode)
  | assign (i j : ι)
  | move_assign (i j : ι)
  | reset (i : ι)
  | decode (i : ι) (buf : DecodeBuffer)
  | assign_module (i : ι) (k : Nat) (j : ι) (l : Nat)
  | move_module (i : ι) (k : Nat) (j : ι) (l : Nat)
  | reset_module (i : ι) (k : Nat)
  | decode_module (i : ι) (k : Nat) (buf : DecodeBuffer)

abbrev Configurations (ι : Type) := ι → Configuration

namespace Configurations

variable {ι : Type} [DecidableEq ι]

open Function (update)

def args (s : Configurations ι) : ModuleSource ι → Option ModuleArgs
  | .none => some .none
  | .declare name inputs_capacity sensors_capacity =>
      some (.declare name inputs_capacity sensors_capacity)
  | .copy i k => do return .copy (← (s i).modules.get k)

def step [Heap] (s : Configurations ι) : ConfigurationEvent ι → Option (Configurations ι)
  | .add_module i source => do return update s i (← (s i).add_module (← s.args source))
  | .add_input i k name id data_type owns_name => do
      return update s i (← (s i).update k fun m =>
        m.add_input (ModuleInput.declare name id data_type owns_name))
  | .add_sensor i k name type data_type mode => do
      return update s i (← (s i).update k fun m =>
        m.add_sensor (Sensor.declare name type data_type mode))
  | .assign i j =>
      if i = j then some (update s i (s i).assignSelf)
      else do return update s i (← (s i).assign (s j))
  | .move_assign i j =>
      if i = j then some (update s i (s i).moveSelf)
      else some (update (update s j (s j).movedFrom) i ((s i).moveAssign (s j)))
  | .reset i => some (update s i (s i).reset)
  | .decode i buf => do
      let ((_, out), _) ← (s i).decode buf
      return update s i out
  | .assign_module i k j l =>
      if i = j ∧ k = l then do return update s i (← (s i).update k fun m => some m.assignSelf)
      else do
        let o ← (s j).modules.get l
        return update s i (← (s i).update k fun m => m.assign o)
  | .move_module i k j l =>
      if i = j ∧ k = l then do return update s i (← (s i).update k fun m => some m.moveSelf)
      else do
        let o ← (s j).modules.get l
        let s := update s j (← (s j).update l fun o => some o.movedFrom)
        return update s i (← (s i).update k fun m => some (m.moveAssign o))
  | .reset_module i k => do return update s i (← (s i).update k fun m => some m.reset)
  | .decode_module i k buf => do
      return update s i (← (s i).update k fun m => do
        let ((_, out), _) ← m.decode buf
        return out)

-- No array gets a 256th element, no configuration with modules is assigned to itself, and
-- nothing is moved out of an object with elements.
def Keeps (s : Configurations ι) : ConfigurationEvent ι → Prop
  | .add_module i _ => (s i).modules.size < 255
  | .add_input i k .. => ∀ m, (s i).modules.get k = some m → m.inputs.size < 255
  | .add_sensor i k .. => ∀ m, (s i).modules.get k = some m → m.sensors.size < 255
  | .assign i j => i = j → (s i).modules.size = 0
  | .move_assign _ j => (s j).modules.size = 0
  | .move_module _ _ j l =>
      ∀ m, (s j).modules.get l = some m → m.inputs.size = 0 ∧ m.sensors.size = 0
  | _ => True

def AllCounted (s : Configurations ι) : Prop := ∀ i, (s i).Counted

def AllFilled (s : Configurations ι) : Prop := ∀ i, (s i).Filled

variable {s u : Configurations ι} {e : ConfigurationEvent ι}

omit [DecidableEq ι] in
theorem AllFilled.counted (h : s.AllFilled) : s.AllCounted := fun i => (h i).counted

theorem AllFilled.update (h : s.AllFilled) {i : ι} {c : Configuration} (hc : c.Filled) :
    AllFilled (update s i c) :=
  (Function.forall_update_iff s fun _ c => c.Filled).mpr ⟨hc, fun i _ => h i⟩

theorem not_allCounted_update {i : ι} {c : Configuration} (hc : ¬c.Counted) :
    ¬AllCounted (Function.update s i c) := by
  intro h
  have hi := h i
  rw [Function.update_self] at hi
  exact hc hi

-- The step of a call that only changes one configuration.
theorem step_eq_some {i : ι} {result : Option Configuration}
    (h : (do return update s i (← result)) = some u) :
    ∃ c, result = some c ∧ u = update s i c := by
  obtain ⟨c, hc, h⟩ := Option.bind_eq_some_iff.mp h
  exact ⟨c, hc, (Option.some.inj h).symm⟩

omit [DecidableEq ι] in
theorem get_of_args {source : ModuleSource ι} {o : Module} (h : s.args source = some (.copy o)) :
    ∃ i k, (s i).modules.get k = some o := by
  cases source with
  | none => simp [Configurations.args] at h
  | declare name inputs_capacity sensors_capacity => simp [Configurations.args] at h
  | copy i k =>
      obtain ⟨m, hget, hm⟩ := Option.bind_eq_some_iff.mp h
      obtain rfl := ModuleArgs.copy.inj (Option.some.inj hm)
      exact ⟨i, k, hget⟩

-- What each step does, with what has let it happen.
inductive Steps [Heap] (s : Configurations ι) : ConfigurationEvent ι → Configurations ι → Prop
  | add_module {i : ι} {source : ModuleSource ι} {args : ModuleArgs} {c : Configuration}
      (hargs : s.args source = some args) (hadd : (s i).add_module args = some c) :
      Steps s (.add_module i source) (update s i c)
  | add_input {i : ι} {k : Nat} {name : Option CString} {id : UInt8} {data_type : DataDeclaration}
      {owns_name : Bool} {c : Configuration}
      (hadd : (s i).update k (fun m =>
        m.add_input (ModuleInput.declare name id data_type owns_name)) = some c) :
      Steps s (.add_input i k name id data_type owns_name) (update s i c)
  | add_sensor {i : ι} {k : Nat} {name : CString} {type : SensorType} {data_type : DataDeclaration}
      {mode : SensorReportingMode} {c : Configuration}
      (hadd : (s i).update k (fun m =>
        m.add_sensor (Sensor.declare name type data_type mode)) = some c) :
      Steps s (.add_sensor i k name type data_type mode) (update s i c)
  | assign_self {i : ι} : Steps s (.assign i i) (update s i (s i).assignSelf)
  | assign {i j : ι} {c : Configuration} (hij : i ≠ j) (hassign : (s i).assign (s j) = some c) :
      Steps s (.assign i j) (update s i c)
  | move_self {i : ι} : Steps s (.move_assign i i) (update s i (s i).moveSelf)
  | move_assign {i j : ι} (hij : i ≠ j) : Steps s (.move_assign i j)
      (update (update s j (s j).movedFrom) i ((s i).moveAssign (s j)))
  | reset {i : ι} : Steps s (.reset i) (update s i (s i).reset)
  | decode {i : ι} {buf last : DecodeBuffer} {r : DecodeResult} {c : Configuration}
      (hdecode : (s i).decode buf = some ((r, c), last)) : Steps s (.decode i buf) (update s i c)
  | assign_module_self {i : ι} {k : Nat} {c : Configuration}
      (hassign : (s i).update k (fun m => some m.assignSelf) = some c) :
      Steps s (.assign_module i k i k) (update s i c)
  | assign_module {i j : ι} {k l : Nat} {o : Module} {c : Configuration}
      (ho : (s j).modules.get l = some o) (hassign : (s i).update k (fun m => m.assign o) = some c) :
      Steps s (.assign_module i k j l) (update s i c)
  | move_module_self {i : ι} {k : Nat} {c : Configuration}
      (hmove : (s i).update k (fun m => some m.moveSelf) = some c) :
      Steps s (.move_module i k i k) (update s i c)
  | move_module {i j : ι} {k l : Nat} {o : Module} {source c : Configuration}
      (hsame : ¬(i = j ∧ k = l)) (ho : (s j).modules.get l = some o)
      (hsource : (s j).update l (fun o => some o.movedFrom) = some source)
      (hmove : (update s j source i).update k (fun m => some (m.moveAssign o)) = some c) :
      Steps s (.move_module i k j l) (update (update s j source) i c)
  | reset_module {i : ι} {k : Nat} {c : Configuration}
      (hreset : (s i).update k (fun m => some m.reset) = some c) :
      Steps s (.reset_module i k) (update s i c)
  | decode_module {i : ι} {k : Nat} {buf : DecodeBuffer} {c : Configuration}
      (hdecode : (s i).update k (fun m => do
        let ((_, out), _) ← m.decode buf
        return out) = some c) :
      Steps s (.decode_module i k buf) (update s i c)

theorem step_steps [Heap] (hstep : step s e = some u) : s.Steps e u := by
  cases e with
  | add_module i source =>
      obtain ⟨args, hargs, hstep⟩ := Option.bind_eq_some_iff.mp hstep
      obtain ⟨c, hc, rfl⟩ := step_eq_some hstep
      exact .add_module hargs hc
  | add_input i k name id data_type owns_name =>
      obtain ⟨c, hc, rfl⟩ := step_eq_some hstep
      exact .add_input hc
  | add_sensor i k name type data_type mode =>
      obtain ⟨c, hc, rfl⟩ := step_eq_some hstep
      exact .add_sensor hc
  | assign i j =>
      by_cases hij : i = j
      · obtain rfl := Option.some.inj ((if_pos hij).symm.trans hstep)
        subst hij
        exact .assign_self
      · obtain ⟨c, hc, rfl⟩ := step_eq_some ((if_neg hij).symm.trans hstep)
        exact .assign hij hc
  | move_assign i j =>
      by_cases hij : i = j
      · obtain rfl := Option.some.inj ((if_pos hij).symm.trans hstep)
        subst hij
        exact .move_self
      · obtain rfl := Option.some.inj ((if_neg hij).symm.trans hstep)
        exact .move_assign hij
  | reset i =>
      obtain rfl := Option.some.inj hstep
      exact .reset
  | decode i buf =>
      obtain ⟨⟨⟨r, out⟩, last⟩, hdecode, hstep⟩ := Option.bind_eq_some_iff.mp hstep
      obtain rfl := Option.some.inj hstep
      exact .decode hdecode
  | assign_module i k j l =>
      by_cases hsame : i = j ∧ k = l
      · obtain ⟨c, hc, rfl⟩ := step_eq_some ((if_pos hsame).symm.trans hstep)
        obtain ⟨rfl, rfl⟩ := hsame
        exact .assign_module_self hc
      · obtain ⟨o, ho, hstep⟩ := Option.bind_eq_some_iff.mp ((if_neg hsame).symm.trans hstep)
        obtain ⟨c, hc, rfl⟩ := step_eq_some hstep
        exact .assign_module ho hc
  | move_module i k j l =>
      by_cases hsame : i = j ∧ k = l
      · obtain ⟨c, hc, rfl⟩ := step_eq_some ((if_pos hsame).symm.trans hstep)
        obtain ⟨rfl, rfl⟩ := hsame
        exact .move_module_self hc
      · obtain ⟨o, ho, hstep⟩ := Option.bind_eq_some_iff.mp ((if_neg hsame).symm.trans hstep)
        obtain ⟨source, hsource, hstep⟩ := Option.bind_eq_some_iff.mp hstep
        obtain ⟨c, hc, rfl⟩ := step_eq_some hstep
        exact .move_module hsame ho hsource hc
  | reset_module i k =>
      obtain ⟨c, hc, rfl⟩ := step_eq_some hstep
      exact .reset_module hc
  | decode_module i k buf =>
      obtain ⟨c, hc, rfl⟩ := step_eq_some hstep
      exact .decode_module hc

theorem AllFilled.step [Heap] (h : s.AllFilled) (hkeeps : Keeps s e) (hstep : step s e = some u) :
    u.AllFilled := by
  cases step_steps hstep with
  | @add_module i source args c hargs hadd =>
      refine h.update ((h i).add_module (fun o ho => ?_) hkeeps hadd)
      subst ho
      obtain ⟨j, l, hget⟩ := get_of_args hargs
      exact (h j).get hget
  | @add_input i _ _ _ _ _ _ hc =>
      refine h.update ((h i).update hc fun m m' hget hadd => ?_)
      exact ((h i).get hget).add_input (hkeeps m hget) hadd
  | @add_sensor i _ _ _ _ _ _ hc =>
      refine h.update ((h i).update hc fun m m' hget hadd => ?_)
      exact (((h i).get hget).add_sensor hadd).2
  | @assign_self i => exact h.update ((h i).assignSelf (hkeeps rfl))
  | @assign i j _ _ hassign => exact h.update ((h i).assign (h j) hassign)
  | @move_self i => exact h.update ((h i).moveSelf hkeeps)
  | @move_assign i j => exact (h.update ((h j).movedFrom hkeeps)).update (h j)
  | @reset i => exact h.update (h i).reset
  | @decode i buf last _ _ hdecode => exact h.update ((h i).yields_decode buf _ last hdecode)
  | @assign_module_self i _ _ hc =>
      refine h.update ((h i).update hc fun m m' hget hassign => ?_)
      obtain rfl := Option.some.inj hassign
      exact ((h i).get hget).assignSelf
  | @assign_module i j _ _ _ _ ho hc =>
      refine h.update ((h i).update hc fun m m' hget hassign => ?_)
      exact ((h i).get hget).assign ((h j).get ho) hassign
  | @move_module_self i _ _ hc =>
      refine h.update ((h i).update hc fun m m' hget hmove => ?_)
      obtain rfl := Option.some.inj hmove
      obtain ⟨hinputs, hsensors⟩ := hkeeps m hget
      exact ((h i).get hget).moveSelf hinputs hsensors
  | @move_module i j _ _ _ source _ _ ho hsource hc =>
      have hmoved : AllFilled (Function.update s j source) := by
        refine h.update ((h j).update hsource fun m m' hget hmove => ?_)
        obtain rfl := Option.some.inj hmove
        obtain ⟨hinputs, hsensors⟩ := hkeeps m hget
        exact ((h j).get hget).movedFrom hinputs hsensors
      refine hmoved.update ((hmoved i).update hc fun m m' hget hmove => ?_)
      obtain rfl := Option.some.inj hmove
      exact (h j).get ho
  | @reset_module i _ _ hc =>
      refine h.update ((h i).update hc fun m m' hget hreset => ?_)
      obtain rfl := Option.some.inj hreset
      exact ((h i).get hget).reset
  | @decode_module i _ buf _ hc =>
      refine h.update ((h i).update hc fun m m' hget hdecode => ?_)
      obtain ⟨⟨⟨r, out⟩, last⟩, hrun, hdecode⟩ := Option.bind_eq_some_iff.mp hdecode
      obtain rfl := Option.some.inj hdecode
      exact (((h i).get hget).yields_decode buf _ last hrun).2

-- What is moved out of a module stays away when another module is written to.
theorem not_counted_moved {i j : ι} {k l : Nat} (h : s.AllFilled) (hsame : ¬(i = j ∧ k = l))
    {source c : Configuration} {o m : Module} (ho : (s j).modules.get l = some o)
    (hnot : ¬(o.inputs.size = 0 ∧ o.sensors.size = 0))
    (hsource : (s j).update l (fun o => some o.movedFrom) = some source)
    (hc : (update s j source i).update k (fun _ => some m) = some c) :
    ¬AllCounted (update (update s j source) i c) := by
  obtain ⟨modules, htallies, -⟩ := h j
  obtain ⟨o', m', ho', hmoved, -, hcontains⟩ :=
    Configuration.contains_update htallies.contains hsource
  rw [htallies.contains.get, ho'] at ho
  obtain rfl := Option.some.inj ho
  obtain rfl := Option.some.inj hmoved
  obtain ⟨hl, -⟩ := List.getElem?_eq_some_iff.mp ho'
  have hmem : o'.movedFrom ∈ modules.set l o'.movedFrom := List.mem_set hl _
  intro hcounted
  have hj := hcounted j
  by_cases hij : j = i
  · subst hij
    rw [Function.update_self] at hj hc
    obtain ⟨_, m', _, hm', -, hcontains'⟩ := Configuration.contains_update hcontains hc
    have hkl : l ≠ k := fun hkl => hsame ⟨rfl, hkl.symm⟩
    have hkept : o'.movedFrom ∈ (modules.set l o'.movedFrom).set k m' := by
      rw [List.set_comm _ _ hkl]
      exact List.mem_set (by simpa using hl) _
    exact Configuration.not_counted_of_mem hcontains' hkept (Module.not_counted_movedFrom hnot) hj
  · rw [Function.update_of_ne hij, Function.update_self] at hj
    exact Configuration.not_counted_of_mem hcontains hmem (Module.not_counted_movedFrom hnot) hj

-- Every other step leaves an object whose counters are wrong.
theorem AllFilled.keeps [Heap] (h : s.AllFilled) (hstep : Configurations.step s e = some u)
    (hcounted : u.AllCounted) : Keeps s e := by
  cases step_steps hstep with
  | add_module _ hadd =>
      by_contra hfull
      exact not_allCounted_update (Configuration.not_counted_add_module hfull hadd) hcounted
  | @add_input i _ _ _ _ _ _ hc =>
      intro m hget
      by_contra hfull
      refine not_allCounted_update ((h i).not_counted_update hc fun m' m'' hget' hadd => ?_) hcounted
      obtain rfl := Option.some.inj (hget.symm.trans hget')
      exact Module.not_counted_add_input hfull hadd
  | @add_sensor i _ _ _ _ _ _ hc =>
      intro m hget
      obtain ⟨m', _, _, hget', hadd, -⟩ := Configuration.size_update hc
      obtain rfl := Option.some.inj (hget.symm.trans hget')
      exact (((h i).get hget).add_sensor hadd).1
  | @assign_self i =>
      intro _
      obtain ⟨modules, htallies, -⟩ := h i
      by_contra hsize
      exact not_allCounted_update (fun hc => htallies.not_counts_assignSelf hsize hc.counts) hcounted
  | assign hij _ => exact fun hsame => absurd hsame hij
  | @move_self i =>
      by_contra hsize
      obtain ⟨modules, htallies, -⟩ := h i
      exact not_allCounted_update (fun hc => htallies.not_counts_moveSelf hsize hc.counts) hcounted
  | @move_assign i j hij =>
      by_contra hsize
      have hj := hcounted j
      rw [Function.update_of_ne (Ne.symm hij), Function.update_self] at hj
      exact not_counts_movedFrom hsize hj.counts
  | @move_module_self i _ _ hc =>
      intro o ho
      by_contra hnot
      refine not_allCounted_update ((h i).not_counted_update hc fun m m' hget hmove => ?_) hcounted
      obtain rfl := Option.some.inj hmove
      obtain rfl := Option.some.inj (ho.symm.trans hget)
      exact ((h i).get hget).not_counted_moveSelf hnot
  | move_module hsame ho' hsource hc =>
      intro o ho
      by_contra hnot
      exact not_counted_moved h hsame ho hnot hsource hc hcounted
  | _ => trivial

omit [DecidableEq ι] in
theorem allFilled_empty (modules_alloc : ι → UInt8) :
    AllFilled fun i : ι => Configuration.empty (modules_alloc i) := fun _ => Configuration.filled_empty _

theorem AllFilled.run [Heap] {trace : List (ConfigurationEvent ι)} (h : s.AllFilled)
    (hrun : Run Configurations.step Keeps s trace u) : u.AllFilled :=
  hrun.invariant h fun h hkeeps hstep => h.step hkeeps hstep

-- The counters of every object match throughout a run exactly if each step of it keeps them.
theorem counted_throughout_iff [Heap] (modules_alloc : ι → UInt8) {trace : List (ConfigurationEvent ι)}
    (hrun : Run step Always (fun i => .empty (modules_alloc i)) trace u) :
    Throughout AllCounted step (fun i => .empty (modules_alloc i)) trace ↔
      Run step Keeps (fun i => .empty (modules_alloc i)) trace u := by
  refine hrun.throughout_iff (allFilled_empty modules_alloc) (fun h => h.counted) ?_ ?_
  · exact fun h hkeeps hstep => h.step hkeeps hstep
  · exact fun h hnot hstep hcounted => hnot (h.keeps hstep hcounted)

def copySteps : List (ConfigurationEvent Bool) :=
  [.add_module false .none, .add_input false 0 none 0 Configuration.speed false, .assign true false,
    .reset false]

theorem copied_counted :
    ∃ u, Run (@step Bool _ Heap.zeros) Always (fun _ => .empty 1) copySteps u ∧
      Throughout AllCounted (@step Bool _ Heap.zeros) (fun _ => .empty 1) copySteps := by
  let _ := Heap.zeros
  obtain ⟨u, hrun⟩ : ∃ u, Run step Keeps (fun _ : Bool => .empty 1) copySteps u := by
    refine ⟨_, .cons (Nat.zero_lt_succ 254) rfl (.cons ?_ rfl (.cons (by simp [Keeps]) rfl
      (.cons trivial rfl .start)))⟩
    intro m hm
    obtain rfl := Option.some.inj hm
    decide
  exact ⟨u, hrun.always, (counted_throughout_iff (fun _ => 1) hrun.always).mpr hrun⟩

-- A configuration that is assigned to itself goes on counting its modules.
theorem not_counted_assign_self : ¬∀ trace u,
    Run (@step Unit _ Heap.zeros) Always (fun _ => .empty 0) trace u → AllCounted u := by
  intro h
  let _ := Heap.zeros
  have hrun : Run step Always (fun _ : Unit => .empty 0) [.add_module () .none, .assign () ()] _ :=
    .cons trivial rfl (.cons trivial rfl .start)
  exact absurd (h _ _ hrun ()).counts.count_eq (by decide)

end Configurations

end RoboCrisp.Comms
