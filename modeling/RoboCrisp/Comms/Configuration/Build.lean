import RoboCrisp.Comms.Configuration.Lemmas
import RoboCrisp.Comms.Module.Numbering

namespace RoboCrisp.Comms

open RoboCrisp.Stream RoboCrisp.Util

-- Modules put together by hand, to be passed to add_module.
inductive Module.Built (Declared : DataDeclaration → Prop) : Module → Prop
  | empty : Built Declared Module.empty
  | declare (name : Option CString) (inputs_capacity sensors_capacity : UInt8) :
      Built Declared (Module.declare name inputs_capacity sensors_capacity)
  | add_input {m m' : Module} (name : Option CString) (id : UInt8) (data_type : DataDeclaration)
      (owns_name : Bool) (hm : Built Declared m) (hdata : Declared data_type)
      (hadd : m.add_input (ModuleInput.declare name id data_type owns_name) = some m')
      (hlimit : m'.inputs.size ≤ Module.MAX_INPUTS) : Built Declared m'
  | add_sensor {m m' : Module} (name : CString) (type : SensorType) (data_type : DataDeclaration)
      (mode : SensorReportingMode) (hm : Built Declared m) (hdata : Declared data_type)
      (hadd : m.add_sensor (Sensor.declare name type data_type mode) = some m')
      (hlimit : m'.sensors.size ≤ 255) : Built Declared m'
  | copy {m m' : Module} (hm : Built Declared m) (hcopy : m.copy = some m') : Built Declared m'

namespace Configuration

-- The calls that extend a configuration.
inductive BuildStep
  | add_module (args : ModuleArgs)
  | add_input (i : Nat) (name : Option CString) (id : UInt8) (data_type : DataDeclaration)
      (owns_name : Bool)
  | add_sensor (i : Nat) (name : CString) (type : SensorType) (data_type : DataDeclaration)
      (mode : SensorReportingMode)

def BuildStep.run (c : Configuration) : BuildStep → Option Configuration
  | .add_module args => c.add_module args
  | .add_input i name id data_type owns_name =>
      c.update i fun m => m.add_input (ModuleInput.declare name id data_type owns_name)
  | .add_sensor i name type data_type mode =>
      c.update i fun m => m.add_sensor (Sensor.declare name type data_type mode)

def BuildStep.Allowed (Declared : DataDeclaration → Prop) : BuildStep → Prop
  | .add_module (.copy m) => m.Built Declared
  | .add_module _ => True
  | .add_input _ _ _ data_type _ => Declared data_type
  | .add_sensor _ _ _ data_type _ => Declared data_type

-- The counts that fit the fields and masks that hold them.
def WithinLimits (c : Configuration) : Prop :=
  c.modules.size ≤ 255 ∧
    ∀ m ∈ c.modules.elems.getD [], m.inputs.size ≤ Module.MAX_INPUTS ∧ m.sensors.size ≤ 255

instance (c : Configuration) : Decidable c.WithinLimits := by
  unfold WithinLimits
  infer_instance

inductive Built (Declared : DataDeclaration → Prop) : Configuration → Prop
  | empty (modules_alloc : UInt8) : Built Declared (Configuration.empty modules_alloc)
  | step {c c' : Configuration} (step : BuildStep) (hc : Built Declared c)
      (hstep : step.Allowed Declared) (hrun : step.run c = some c') (hlimit : c'.WithinLimits) :
      Built Declared c'

end Configuration

variable {Declared : DataDeclaration → Prop}

theorem Module.Built.imp {Declared' : DataDeclaration → Prop} {m : Module} (h : m.Built Declared)
    (himp : ∀ data_type, Declared data_type → Declared' data_type) : m.Built Declared' := by
  induction h with
  | empty => exact .empty
  | declare name inputs_capacity sensors_capacity => exact .declare _ _ _
  | add_input name id data_type owns_name _ hdata hadd hlimit ih =>
      exact .add_input name id data_type owns_name ih (himp _ hdata) hadd hlimit
  | add_sensor name type data_type mode _ hdata hadd hlimit ih =>
      exact .add_sensor name type data_type mode ih (himp _ hdata) hadd hlimit
  | copy _ hcopy ih => exact .copy ih hcopy

theorem Configuration.Built.imp {Declared' : DataDeclaration → Prop} {c : Configuration}
    (h : c.Built Declared) (himp : ∀ data_type, Declared data_type → Declared' data_type) :
    c.Built Declared' := by
  induction h with
  | empty modules_alloc => exact .empty modules_alloc
  | step step _ hstep hrun hlimit ih =>
      refine .step step ih ?_ hrun hlimit
      match step, hstep with
      | .add_module .none, _ => trivial
      | .add_module (.declare ..), _ => trivial
      | .add_module (.copy m), hm => exact Module.Built.imp hm himp
      | .add_input .., hdata => exact himp _ hdata
      | .add_sensor .., hdata => exact himp _ hdata

theorem Module.Built.dense {m : Module} (h : m.Built Declared) : m.Dense Declared := by
  induction h with
  | empty => exact dense_empty
  | declare name inputs_capacity sensors_capacity => exact dense_declare _ _ _
  | add_input name id data_type owns_name _ hdata hadd hlimit ih =>
      have hplain := NamedTyped.plain_ofName name owns_name hdata
      exact (ih.add_input hplain hadd (Nat.le_trans hlimit (by decide))).1
  | add_sensor name type data_type mode _ hdata hadd hlimit ih =>
      have hplain := NamedTyped.plain_ofName (some name) false hdata
      exact (ih.add_sensor hplain hadd hlimit).1
  | copy _ hcopy ih => exact (ih.copy hcopy).1

-- What holds of new modules and of copies holds of what a constructor makes.
theorem ModuleArgs.construct_keeps {Good : Module → Prop} {args : ModuleArgs} {m : Module}
    (hempty : Good .empty)
    (hdeclare : ∀ name inputs_capacity sensors_capacity,
      Good (.declare name inputs_capacity sensors_capacity))
    (hcopy : ∀ m m', Good m → m.copy = some m' → Good m')
    (hargs : ∀ o, args = .copy o → Good o) (h : args.construct = some m) : Good m := by
  cases args with
  | none =>
      obtain rfl := Option.some.inj h
      exact hempty
  | declare name inputs_capacity sensors_capacity =>
      obtain rfl := Option.some.inj h
      exact hdeclare _ _ _
  | copy o =>
      obtain ⟨second, h, hthird⟩ := Option.bind_eq_some_iff.mp h
      obtain ⟨first, hfirst, hsecond⟩ := Option.bind_eq_some_iff.mp h
      exact hcopy _ _ (hcopy _ _ (hcopy _ _ (hargs o rfl) hfirst) hsecond) hthird

theorem ModuleArgs.construct_dense {args : ModuleArgs} {m : Module}
    (hargs : (Configuration.BuildStep.add_module args).Allowed Declared)
    (h : args.construct = some m) : m.Dense Declared := by
  refine construct_keeps Module.dense_empty Module.dense_declare (fun _ _ hm hcopy => (hm.copy hcopy).1)
    (fun o ho => ?_) h
  subst ho
  exact Module.Built.dense hargs

namespace Configuration

-- The modules are dense and carry their index as id; `next` is the id of the next one.
def Numbered (Declared : DataDeclaration → Prop) (next : UInt8) (c : Configuration) : Prop :=
  Comms.Numbered (Module.Dense Declared) (fun m => m.id.toNat) c.num_modules next c.modules

variable {c c' : Configuration} {next : UInt8}

theorem size_update {i : Nat} {f : Module → Option Module} (h : c.update i f = some c') :
    ∃ m m' modules, c.modules.get i = some m ∧ f m = some m' ∧
      (c.modules.modify i fun _ => m') = some modules ∧ c' = { c with modules } := by
  obtain ⟨m, hget, h⟩ := Option.bind_eq_some_iff.mp h
  obtain ⟨m', hf, h⟩ := Option.bind_eq_some_iff.mp h
  obtain ⟨modules, hmodify, h⟩ := Option.bind_eq_some_iff.mp h
  exact ⟨m, m', modules, hget, hf, hmodify, (Option.some.inj h).symm⟩

-- A module of a configuration within the limits is within them.
theorem WithinLimits.of_modify {modules : SArray Module} {elements : List Module} {i : Nat}
    {m m' : Module} (hlimit : ({ c with modules } : Configuration).WithinLimits)
    (hholds : c.modules.Holds elements) (hget : c.modules.get i = some m)
    (hmodify : (c.modules.modify i fun _ => m') = some modules) :
    m'.inputs.size ≤ Module.MAX_INPUTS ∧ m'.sensors.size ≤ 255 := by
  rw [hholds.get] at hget
  obtain ⟨hi, rfl⟩ := List.getElem?_eq_some_iff.mp hget
  obtain ⟨-, hholds'⟩ := hholds.of_modify hmodify
  have helems : (({ c with modules } : Configuration).modules.elems.getD []) =
      elements.set i m' := by
    rw [hholds'.elems]
    rfl
  exact hlimit.2 m' (by rw [helems]; exact List.mem_set hi m')

theorem Numbered.update {i : Nat} {f : Module → Option Module} (h : c.Numbered Declared next)
    (hupdate : c.update i f = some c') (hlimit : c'.WithinLimits)
    (hkeep : ∀ m m', m.Dense Declared → f m = some m' → m'.inputs.size ≤ Module.MAX_INPUTS →
      m'.sensors.size ≤ 255 → m'.Dense Declared ∧ m'.id = m.id) :
    c'.Numbered Declared next := by
  obtain ⟨m, m', modules, hget, hf, hmodify, rfl⟩ := size_update hupdate
  have ⟨elements, hholds, _⟩ := h
  have hsize := hlimit.of_modify hholds hget hmodify
  refine Comms.Numbered.replace h hget hmodify fun hm => ?_
  obtain ⟨hdense, hid⟩ := hkeep m m' hm hf hsize.1 hsize.2
  exact ⟨hdense, by rw [hid]⟩

theorem Numbered.add_module {args : ModuleArgs} (h : c.Numbered Declared c.next_module_id)
    (hargs : (BuildStep.add_module args).Allowed Declared) (hadd : c.add_module args = some c')
    (hlimit : c'.WithinLimits) : c'.Numbered Declared c'.next_module_id := by
  obtain ⟨out, hout, hadd⟩ := Option.bind_eq_some_iff.mp hadd
  obtain ⟨modules, hpush, hadd⟩ := Option.bind_eq_some_iff.mp hadd
  obtain rfl := Option.some.inj hadd
  have hsize : modules.size ≤ 255 := hlimit.1
  rw [SArray.size_push hpush] at hsize
  have hdense := (ModuleArgs.construct_dense hargs hout).with_id c.next_module_id
  obtain ⟨modules', hpush', hnumbered⟩ := Comms.Numbered.push h hsize hdense rfl
  obtain rfl := Option.some.inj (hpush'.symm.trans hpush)
  exact hnumbered

-- Calls on modules keep the ids whatever the next one is.
theorem Numbered.build_element {step : BuildStep} (h : c.Numbered Declared next)
    (hstep : step.Allowed Declared) (hrun : step.run c = some c') (hlimit : c'.WithinLimits)
    (helement : ∀ args, step ≠ .add_module args) :
    c'.Numbered Declared next := by
  cases step with
  | add_module args => exact absurd rfl (helement args)
  | add_input i name id data_type owns_name =>
      refine h.update hrun hlimit fun m m' hm hf hinputs _ => ?_
      exact hm.add_input (NamedTyped.plain_ofName name owns_name hstep) hf
        (Nat.le_trans hinputs (by decide))
  | add_sensor i name type data_type mode =>
      refine h.update hrun hlimit fun m m' hm hf _ hsensors => ?_
      exact hm.add_sensor (NamedTyped.plain_ofName (some name) false hstep) hf hsensors

theorem Built.numbered (h : c.Built Declared) : c.Numbered Declared c.next_module_id := by
  induction h with
  | empty modules_alloc => exact numbered_alloc _
  | @step c c' step hc hstep hrun hlimit ih =>
      by_cases hadd : ∃ args, step = .add_module args
      · obtain ⟨args, rfl⟩ := hadd
        exact ih.add_module hstep hrun hlimit
      · have hsame : c'.next_module_id = c.next_module_id := by
          cases step with
          | add_module args => exact absurd ⟨args, rfl⟩ hadd
          | add_input i name id data_type owns_name =>
              obtain ⟨_, _, _, -, -, -, rfl⟩ := size_update hrun
              rfl
          | add_sensor i name type data_type mode =>
              obtain ⟨_, _, _, -, -, -, rfl⟩ := size_update hrun
              rfl
        rw [hsame]
        exact ih.build_element hstep hrun hlimit fun args h => hadd ⟨args, h⟩

-- Steps whose results are checked against the limits as they go.
def BuildStep.runWithin (c : Configuration) (step : BuildStep) : Option Configuration := do
  let c' ← step.run c
  if c'.WithinLimits then some c' else none

theorem Built.run_steps (h : c.Built Declared) {steps : List BuildStep}
    (hsteps : ∀ step ∈ steps, step.Allowed Declared)
    (hrun : steps.foldlM BuildStep.runWithin c = some c') : c'.Built Declared := by
  induction steps generalizing c with
  | nil =>
      obtain rfl := Option.some.inj hrun
      exact h
  | cons step steps ih =>
      rw [List.foldlM_cons] at hrun
      obtain ⟨middle, hmiddle, hrun⟩ := Option.bind_eq_some_iff.mp hrun
      obtain ⟨result, hresult, hmiddle⟩ := Option.bind_eq_some_iff.mp hmiddle
      obtain ⟨hlimit, hmiddle⟩ := Option.ite_none_right_eq_some.mp hmiddle
      obtain rfl := Option.some.inj hmiddle
      exact ih (.step step h (hsteps step (by simp)) hresult hlimit)
        (fun step hstep => hsteps step (List.mem_cons_of_mem _ hstep)) hrun

-- A module "drive" with an input "speed" from -127 to 127 and a neutral value of 0.
def speed : DataDeclaration :=
  { DataDeclaration.empty with
    type := DataType.INTEGER.code
    width := 1
    is_signed := true
    has_neutral_value := true
    has_minimum_value := true
    has_maximum_value := true
    minimum_value := ⟨129 :: List.replicate 15 0, rfl⟩
    maximum_value := ⟨127 :: List.replicate 15 0, rfl⟩ }

theorem drive_no_nul : (0 : UInt8) ∉ [100, 114, 105, 118, 101] := by decide

theorem speed_no_nul : (0 : UInt8) ∉ [115, 112, 101, 101, 100] := by decide

def driveSteps : List BuildStep :=
  [.add_module (.declare (some ⟨[100, 114, 105, 118, 101], drive_no_nul⟩) 2 0),
    .add_input 0 (some ⟨[115, 112, 101, 101, 100], speed_no_nul⟩) 0 speed false]

def drive : Configuration := (driveSteps.foldlM BuildStep.runWithin (empty 0)).get (by decide)

def driveModule : Module := (drive.modules.get 0).get (by decide)

def speedInput : ModuleInput := (driveModule.inputs.get 0).get (by decide)

theorem drive_built : drive.Built fun data_type =>
    data_type.width.toNat ≤ 16 ∧ data_type.is_array = false := by
  have hsteps : ∀ step ∈ driveSteps, step.Allowed fun data_type =>
      data_type.width.toNat ≤ 16 ∧ data_type.is_array = false := by
    intro step hstep
    rcases List.mem_pair.mp hstep with rfl | rfl
    · trivial
    · exact (by decide : speed.width.toNat ≤ 16 ∧ speed.is_array = false)
  exact (Built.empty 0).run_steps hsteps (Option.some_get _).symm

theorem dense_driveModule {Declared : DataDeclaration → Prop} (h : drive.Built Declared) :
    driveModule.Dense Declared := by
  obtain ⟨modules, hholds, horder, -⟩ := h.numbered
  have hget : modules[0]? = some driveModule := by
    rw [← hholds.get]
    exact (Option.some_get _).symm
  exact horder.good _ (List.mem_of_getElem? hget)

theorem driveModule_dense : driveModule.Dense DataDeclaration.Sound :=
  dense_driveModule (drive_built.imp fun _ h _ => h.1)

end Configuration

end RoboCrisp.Comms
