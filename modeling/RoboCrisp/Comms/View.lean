import RoboCrisp.Comms.Configuration.Objects
import RoboCrisp.Comms.Equality

namespace RoboCrisp.Comms

open RoboCrisp.Stream RoboCrisp.Util

-- What there is to see in an object, whatever memory it keeps it in.

structure DeclarationView where
  type : BitVec 6
  width : BitVec 5
  is_signed : Bool
  neutral_value : Option Bytes
  minimum_value : Option Bytes
  maximum_value : Option Bytes
deriving DecidableEq

structure ArrayView where
  is_array : Bool
  array_size_width : UInt8
deriving DecidableEq

structure InputView (δ : Type) where
  input_id : UInt8
  name : Bytes
  data_type : δ
deriving DecidableEq

structure SensorView (δ : Type) where
  id : BitVec 10
  type : BitVec 5
  reporting_mode : BitVec 1
  name : Bytes
  data_type : δ
deriving DecidableEq

structure ModuleView (δ : Type) where
  id : UInt8
  name : Bytes
  inputs : List (InputView δ)
  sensors : List (SensorView δ)
deriving DecidableEq

def Slot.view (slot : Slot) (present : Bool) (width : BitVec 5) : Option Bytes :=
  if present then some (slot.bytes.take width.toNat) else none

def nameView (name : Option Bytes) (name_length : UInt8) : Bytes :=
  (name.getD []).take name_length.toNat

-- All but what goes for arrays, and that.
def DataDeclaration.view (obj : DataDeclaration) : DeclarationView where
  type := obj.type
  width := obj.width
  is_signed := obj.is_signed
  neutral_value := obj.neutral_value.view obj.has_neutral_value obj.width
  minimum_value := obj.minimum_value.view obj.has_minimum_value obj.width
  maximum_value := obj.maximum_value.view obj.has_maximum_value obj.width

def DataDeclaration.arrays (obj : DataDeclaration) : ArrayView := ⟨obj.is_array, obj.array_size_width⟩

section View

variable {δ : Type} (look : DataDeclaration → δ)

def ModuleInput.view (mi : ModuleInput) : InputView δ where
  input_id := mi.input_id
  name := nameView mi.name mi.name_length
  data_type := look mi.data_type

def Sensor.view (s : Sensor) : SensorView δ where
  id := s.id
  type := s.type
  reporting_mode := s.reporting_mode
  name := nameView s.name s.name_length
  data_type := look s.data_type

def Module.view (m : Module) : ModuleView δ where
  id := m.id
  name := nameView m.name m.name_length
  inputs := (m.inputs.elems.getD []).map (ModuleInput.view look)
  sensors := (m.sensors.elems.getD []).map (Sensor.view look)

def Configuration.view (c : Configuration) : List (ModuleView δ) :=
  (c.modules.elems.getD []).map (Module.view look)

end View

-- A name that has as many characters as its length says.
def Named (name : Option Bytes) (name_length : UInt8) : Prop :=
  name_length ≠ 0 → ∃ block, name = some block ∧ name_length.toNat ≤ block.length

structure NamedTyped.Complete (obj : NamedTyped) : Prop where
  width_le : obj.data_type.width.toNat ≤ 16
  named : Named obj.name obj.name_length

structure Module.Complete (m : Module) : Prop where
  counted : m.Counted
  named : Named m.name m.name_length
  inputs : ∀ inputs, m.inputs.elems = some inputs → ∀ input ∈ inputs, input.Complete
  sensors : ∀ sensors, m.sensors.elems = some sensors → ∀ sensor ∈ sensors, sensor.Complete

structure Configuration.Complete (c : Configuration) : Prop where
  counted : c.Counted
  modules : ∀ modules, c.modules.elems = some modules → ∀ m ∈ modules, m.Complete

theorem Named.nameIs {name : Option Bytes} {name_length : UInt8} (h : Named name name_length) :
    NameIs name name_length (nameView name name_length) := by
  by_cases hzero : name_length = 0
  · subst hzero
    exact ⟨rfl, fun hne => absurd rfl hne⟩
  · obtain ⟨block, rfl, hle⟩ := h hzero
    refine ⟨?_, fun _ => ⟨block, rfl, List.take_prefix _ _⟩⟩
    rw [nameView, Option.getD_some, List.length_take, Nat.min_eq_left hle]

theorem NameIs.named {name : Option Bytes} {name_length : UInt8} {chars : Bytes}
    (h : NameIs name name_length chars) : Named name name_length := by
  intro hne
  have hchars : chars ≠ [] := by
    rintro rfl
    exact hne (UInt8.toNat_inj.mp h.1)
  obtain ⟨block, hblock, hpre⟩ := h.2 hchars
  exact ⟨block, hblock, by rw [h.1]; exact hpre.length_le⟩

theorem NameIs.view_eq {name : Option Bytes} {name_length : UInt8} {chars : Bytes}
    (h : NameIs name name_length chars) : nameView name name_length = chars := by
  have hpre := h.prefix_getD
  rw [nameView, h.1, ← List.prefix_iff_eq_take.mp hpre]

-- The views of the elements, where the elements go in pairs.
theorem map_eq_of_forall₂ {α β : Type} {f : α → β} {as bs : List α}
    (h : List.Forall₂ (fun a b => f a = f b) as bs) : as.map f = bs.map f := by
  induction h with
  | nil => rfl
  | cons hhead _ ih => rw [List.map_cons, List.map_cons, hhead, ih]

section Equality

-- The result of each comparison is whether the views are the same.

theorem Slot.view_eq_iff {slot slot' : Slot} {present present' : Bool} {width : BitVec 5} :
    slot.view present width = slot'.view present' width ↔
      present = present' ∧ (present = false ∨
        slot.bytes.take width.toNat = slot'.bytes.take width.toNat) := by
  cases present <;> cases present' <;> simp [Slot.view]

theorem DataDeclaration.eq_iff {obj o : DataDeclaration} : obj.eq o = true ↔ obj.view = o.view := by
  obtain ⟨type, width, is_array, is_signed, hn, hmin, hmax, asw, n, mi, ma⟩ := obj
  obtain ⟨type', width', is_array', is_signed', hn', hmin', hmax', asw', n', mi', ma'⟩ := o
  simp only [DataDeclaration.eq, DataDeclaration.view, DeclarationView.mk.injEq, Bool.and_eq_true,
    Bool.or_eq_true, Bool.not_eq_true', decide_eq_true_eq, and_assoc]
  constructor
  · rintro ⟨rfl, rfl, rfl, rfl, hneutral, rfl, hminimum, rfl, hmaximum⟩
    exact ⟨rfl, rfl, rfl, Slot.view_eq_iff.mpr ⟨rfl, hneutral⟩, Slot.view_eq_iff.mpr ⟨rfl, hminimum⟩,
      Slot.view_eq_iff.mpr ⟨rfl, hmaximum⟩⟩
  · rintro ⟨rfl, rfl, rfl, hneutral, hminimum, hmaximum⟩
    obtain ⟨rfl, hn_take⟩ := Slot.view_eq_iff.mp hneutral
    obtain ⟨rfl, hmin_take⟩ := Slot.view_eq_iff.mp hminimum
    obtain ⟨rfl, hmax_take⟩ := Slot.view_eq_iff.mp hmaximum
    exact ⟨rfl, rfl, rfl, rfl, hn_take, rfl, hmin_take, rfl, hmax_take⟩

theorem DataDeclaration.eq_eq_decide (obj o : DataDeclaration) :
    obj.eq o = decide (obj.view = o.view) := by
  rw [Bool.eq_iff_iff, DataDeclaration.eq_iff, decide_eq_true_iff]

theorem ModuleInput.eq_eq_decide {mi o : ModuleInput} (h : mi.Complete) (ho : o.Complete) :
    mi.eq o = some (decide (mi.view DataDeclaration.view = o.view DataDeclaration.view)) := by
  have hname := h.named.nameIs
  have hname' := ho.named.nameIs
  by_cases hsame : mi.input_id = o.input_id ∧ mi.name_length = o.name_length ∧
      mi.data_type.view = o.data_type.view
  · obtain ⟨hid, hlength, hdata⟩ := hsame
    rw [← hlength] at hname'
    have hcompare := sameName_eq hname hname'
    simp only [ModuleInput.eq, DataDeclaration.eq_eq_decide, get_name_length, hid, hlength, hdata,
      decide_true, Bool.and_self, if_true, ModuleInput.view, InputView.mk.injEq, true_and, and_true]
    rw [← hlength]
    exact hcompare
  · have hviews : mi.view DataDeclaration.view ≠ o.view DataDeclaration.view := by
      intro hview
      obtain ⟨hid, hchars, hdata⟩ := InputView.mk.inj hview
      rw [← hchars] at hname'
      exact hsame ⟨hid, (hname.length_unique hname').symm, hdata⟩
    rw [decide_eq_false hviews, ModuleInput.eq, if_neg]
    intro hfields
    simp only [Bool.and_eq_true, decide_eq_true_eq, get_name_length, DataDeclaration.eq_iff] at hfields
    obtain ⟨⟨hid, hlength⟩, hdata⟩ := hfields
    exact hsame ⟨hid, UInt8.toNat_inj.mp (of_decide_eq_true hlength), hdata⟩

theorem Sensor.eq_eq_decide {s o : Sensor} (h : s.Complete) (ho : o.Complete) :
    s.eq o = some (decide (s.view DataDeclaration.view = o.view DataDeclaration.view)) := by
  have hname := h.named.nameIs
  have hname' := ho.named.nameIs
  by_cases hsame : s.id = o.id ∧ s.type = o.type ∧ s.reporting_mode = o.reporting_mode ∧
      s.name_length = o.name_length ∧ s.data_type.view = o.data_type.view
  · obtain ⟨hid, htype, hmode, hlength, hdata⟩ := hsame
    rw [← hlength] at hname'
    have hcompare := ModuleInput.sameName_eq hname hname'
    simp only [Sensor.eq, DataDeclaration.eq_eq_decide, hid, htype, hmode, hlength, hdata,
      decide_true, Bool.and_self, if_true, Sensor.view, SensorView.mk.injEq, true_and, and_true]
    rw [← hlength]
    exact hcompare
  · have hviews : s.view DataDeclaration.view ≠ o.view DataDeclaration.view := by
      intro hview
      obtain ⟨hid, htype, hmode, hchars, hdata⟩ := SensorView.mk.inj hview
      rw [← hchars] at hname'
      exact hsame ⟨hid, htype, hmode, (hname.length_unique hname').symm, hdata⟩
    rw [decide_eq_false hviews, Sensor.eq, if_neg]
    intro hfields
    simp only [Bool.and_eq_true, decide_eq_true_eq, DataDeclaration.eq_iff] at hfields
    obtain ⟨⟨⟨⟨hid, htype⟩, hmode⟩, hlength⟩, hdata⟩ := hfields
    exact hsame ⟨hid, htype, hmode, hlength, hdata⟩

-- The loop has a result when every comparison has one.
theorem eqEach_eq_decide {α β : Type} [DecidableEq β] {eq : α → α → Option Bool} {f : α → β}
    {first second : SArray α} {as bs : List α} (hfirst : first.elems = some as)
    (hsecond : second.elems = some bs) (hlength : as.length = bs.length)
    (heq : ∀ a ∈ as, ∀ b ∈ bs, eq a b = some (decide (f a = f b))) :
    eqEach eq first second as.length = some (decide (as.map f = bs.map f)) := by
  have ha := (SArray.get_of_elems hfirst).2
  have hb := (SArray.get_of_elems hsecond).2
  have hpair : ∀ i ∈ List.range as.length, (do
      let a ← first.get i
      let b ← second.get i
      eq a b) = some (decide ((as.map f)[i]? = (bs.map f)[i]?)) := by
    intro i hi
    have hi := List.mem_range.mp hi
    have hi' : i < bs.length := hlength ▸ hi
    rw [ha i hi, hb i hi', List.getElem?_eq_getElem hi, List.getElem?_eq_getElem hi']
    simp only [Option.bind_eq_bind, Option.bind_some, heq _ (List.getElem_mem hi) _ (List.getElem_mem hi'),
      List.getElem?_map, List.getElem?_eq_getElem hi, List.getElem?_eq_getElem hi', Option.map_some,
      Option.some.injEq]
  refine (foldlM_all_eq hpair).trans (congrArg some ?_)
  rw [Bool.true_and, Bool.eq_iff_iff, List.all_eq_true, decide_eq_true_iff]
  constructor
  · intro hall
    refine List.ext_getElem? fun i => ?_
    by_cases hi : i < as.length
    · exact of_decide_eq_true (hall i (List.mem_range.mpr hi))
    · rw [List.getElem?_eq_none (by rw [List.length_map]; omega),
        List.getElem?_eq_none (by rw [List.length_map]; omega)]
  · intro hmaps i _
    rw [hmaps, decide_eq_true_iff]

theorem Module.sameName_eq_decide {m o : Module} (h : Named m.name m.name_length)
    (ho : Named o.name o.name_length) (hlength : m.name_length = o.name_length) :
    m.sameName o = some (decide (nameView m.name m.name_length = nameView o.name o.name_length)) := by
  rw [sameName]
  by_cases hzero : m.name_length = 0
  · rw [if_pos hzero, ← hlength, hzero]
    simp [nameView]
  · obtain ⟨block, hname, hle⟩ := h hzero
    obtain ⟨block', hname', hle'⟩ := ho (hlength ▸ hzero)
    rw [← hlength] at hle'
    rw [if_neg hzero, hname, hname', ← hlength]
    simp only [load, if_pos hle, if_pos hle', Option.bind_eq_bind, Option.bind_some, nameView,
      Option.getD_some]
    rfl

theorem Module.eq_eq_decide {m o : Module} (h : m.Complete) (ho : o.Complete) :
    m.eq o = some (decide (m.view DataDeclaration.view = o.view DataDeclaration.view)) := by
  obtain ⟨inputs, hinputs, hni⟩ := h.counted.inputs.exists_elems
  obtain ⟨inputs', hinputs', hni'⟩ := ho.counted.inputs.exists_elems
  obtain ⟨sensors, hsensors, hns⟩ := h.counted.sensors.exists_elems
  obtain ⟨sensors', hsensors', hns'⟩ := ho.counted.sensors.exists_elems
  have hview : m.view DataDeclaration.view = o.view DataDeclaration.view ↔
      m.id = o.id ∧ nameView m.name m.name_length = nameView o.name o.name_length ∧
        inputs.map (ModuleInput.view DataDeclaration.view) =
          inputs'.map (ModuleInput.view DataDeclaration.view) ∧
        sensors.map (Sensor.view DataDeclaration.view) =
          sensors'.map (Sensor.view DataDeclaration.view) := by
    rw [Module.view, Module.view, hinputs, hinputs', hsensors, hsensors', ModuleView.mk.injEq]
    rfl
  by_cases hheader : m.header = o.header
  · -- the counts and lengths agree, so that each part is compared
    have hfields := hheader
    simp only [Module.header, List.cons.injEq, and_true] at hfields
    obtain ⟨hid, hnum_inputs, hnum_sensors, hlength⟩ := hfields
    have hilength : inputs.length = inputs'.length := by rw [← hni, hnum_inputs, hni']
    have hslength : sensors.length = sensors'.length := by rw [← hns, hnum_sensors, hns']
    have hcompare : eqEach ModuleInput.eq m.inputs o.inputs inputs.length =
        some (decide (inputs.map (ModuleInput.view DataDeclaration.view) =
          inputs'.map (ModuleInput.view DataDeclaration.view))) :=
      eqEach_eq_decide hinputs hinputs' hilength fun a ha b hb =>
        ModuleInput.eq_eq_decide (h.inputs inputs hinputs a ha) (ho.inputs inputs' hinputs' b hb)
    have hcompare' : eqEach Sensor.eq m.sensors o.sensors sensors.length =
        some (decide (sensors.map (Sensor.view DataDeclaration.view) =
          sensors'.map (Sensor.view DataDeclaration.view))) :=
      eqEach_eq_decide hsensors hsensors' hslength fun a ha b hb =>
        Sensor.eq_eq_decide (h.sensors sensors hsensors a ha) (ho.sensors sensors' hsensors' b hb)
    rw [Module.eq, if_pos hheader, sameName_eq_decide h.named ho.named hlength, hns, hni, hcompare,
      hcompare']
    by_cases hname : nameView m.name m.name_length = nameView o.name o.name_length
    · by_cases hs : sensors.map (Sensor.view DataDeclaration.view) =
        sensors'.map (Sensor.view DataDeclaration.view) <;> simp [hview, hname, hs, hid]
    · simp [hview, hname]
  · have hviews : m.view DataDeclaration.view ≠ o.view DataDeclaration.view := by
      intro hviews
      obtain ⟨hid, hname, hi, hs⟩ := hview.mp hviews
      have hname' := ho.named.nameIs
      rw [← hname] at hname'
      have hilength : inputs.length = inputs'.length := by simpa using congrArg List.length hi
      have hslength : sensors.length = sensors'.length := by simpa using congrArg List.length hs
      apply hheader
      rw [Module.header, Module.header, hid, h.named.nameIs.length_unique hname',
        UInt8.toNat_inj.mp (hni.trans (hilength.trans hni'.symm)),
        UInt8.toNat_inj.mp (hns.trans (hslength.trans hns'.symm))]
    rw [Module.eq, if_neg hheader, decide_eq_false hviews]

theorem Configuration.eq_eq_decide {c o : Configuration} (h : c.Complete) (ho : o.Complete) :
    c.eq o = some (decide (c.view DataDeclaration.view = o.view DataDeclaration.view)) := by
  obtain ⟨modules, hmodules, hcount⟩ := h.counted.counts.exists_elems
  obtain ⟨modules', hmodules', hcount'⟩ := ho.counted.counts.exists_elems
  rw [Configuration.view, Configuration.view, hmodules, hmodules', Option.getD_some, Option.getD_some]
  by_cases hnum : c.num_modules = o.num_modules
  · have hlength : modules.length = modules'.length := by rw [← hcount, hnum, hcount']
    rw [Configuration.eq, if_pos hnum, hcount]
    exact eqEach_eq_decide hmodules hmodules' hlength fun a ha b hb =>
      Module.eq_eq_decide (h.modules modules hmodules a ha) (ho.modules modules' hmodules' b hb)
  · rw [Configuration.eq, if_neg hnum, decide_eq_false]
    intro hviews
    have hlength : modules.length = modules'.length := by simpa using congrArg List.length hviews
    exact hnum (UInt8.toNat_inj.mp (hcount.trans (hlength.trans hcount'.symm)))

end Equality

end RoboCrisp.Comms
