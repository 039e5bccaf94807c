import RoboCrisp.Comms.Configuration.Lemmas
import RoboCrisp.Stream.Partial

namespace RoboCrisp.Comms

open RoboCrisp.Stream RoboCrisp.Util

-- Objects that say the same to a peer are equal to the operators, wherever they keep it.

theorem forall₂_join {α β ι : Type} {A : α → ι → Prop} {B : β → ι → Prop} {C : α → β → Prop}
    (h : ∀ a b i, A a i → B b i → C a b) {as : List α} {bs : List β} {is : List ι}
    (ha : List.Forall₂ A as is) (hb : List.Forall₂ B bs is) : List.Forall₂ C as bs := by
  induction ha generalizing bs with
  | nil =>
      obtain rfl := List.forall₂_nil_right_iff.mp hb
      exact .nil
  | @cons a i as is hhead htail ih =>
      obtain ⟨b, bs, hbi, hrest, rfl⟩ := List.forall₂_cons_right_iff.mp hb
      exact .cons (h a b i hhead hbi) (ih hrest)

section Declarations

variable {obj o : DataDeclaration} {s : DeclarationContents}

theorem DataDeclaration.eq_self (obj : DataDeclaration) : obj.eq obj = true := by
  simp [DataDeclaration.eq]

theorem DataDeclaration.Holds.bytes_eq {width : Nat} {present present' : Bool} {slot slot' : Slot}
    {bound : Option (Bound width)} (h : Holds present slot bound) (h' : Holds present' slot' bound) :
    present = false ∨ slot.bytes.take width = slot'.bytes.take width := by
  cases bound with
  | none => exact .inl h.present_eq
  | some b =>
      have htake : slot.bytes.take b.bytes.length = b.bytes :=
        (List.prefix_iff_eq_take.mp (h.prefix_of b rfl)).symm
      have htake' : slot'.bytes.take b.bytes.length = b.bytes :=
        (List.prefix_iff_eq_take.mp (h'.prefix_of b rfl)).symm
      rw [b.length_eq] at htake htake'
      exact .inr (htake.trans htake'.symm)

theorem DataDeclaration.Represents.eq (h : obj.Represents s) (h' : o.Represents s) :
    obj.eq o = true := by
  have hneutral := h.neutral.bytes_eq h'.neutral
  have hminimum := h.minimum.bytes_eq h'.minimum
  have hmaximum := h.maximum.bytes_eq h'.maximum
  rw [← h.width_eq] at hneutral hminimum hmaximum
  simp only [DataDeclaration.eq, Bool.and_eq_true, Bool.or_eq_true, Bool.not_eq_true',
    decide_eq_true_eq, and_assoc]
  refine ⟨h.type_eq.trans h'.type_eq.symm, h.width_eq.trans h'.width_eq.symm,
    h.is_signed_eq.trans h'.is_signed_eq.symm, ?_, hneutral, ?_, hminimum, ?_, hmaximum⟩
  · rw [h.neutral.present_eq, h'.neutral.present_eq]
  · rw [h.minimum.present_eq, h'.minimum.present_eq]
  · rw [h.maximum.present_eq, h'.maximum.present_eq]

end Declarations

section Names

variable {chars chars' : Bytes}

theorem ModuleInput.sameName_eq {name other : Option Bytes} {name_length : UInt8}
    (h : NameIs name name_length chars) (h' : NameIs other name_length chars') :
    sameName name other name_length.toNat = some (decide (chars = chars')) := by
  have hlength : chars.length = chars'.length := h.1.symm.trans h'.1
  rw [h.1]
  by_cases hchars : chars = []
  · subst hchars
    obtain rfl : chars' = [] := List.length_eq_zero_iff.mp hlength.symm
    rfl
  · have hchars' : chars' ≠ [] := by
      intro hnil
      rw [hnil] at hlength
      exact hchars (List.length_eq_zero_iff.mp hlength)
    obtain ⟨block, rfl, hpre⟩ := h.2 hchars
    obtain ⟨block', rfl, hpre'⟩ := h'.2 hchars'
    have hload' : load block' chars.length = some chars' := hlength ▸ load_of_prefix hpre'
    have hne : chars.length ≠ 0 := fun hzero => hchars (List.length_eq_zero_iff.mp hzero)
    simp only [sameName, if_neg hne, Option.bind_eq_bind, Option.bind_some, load_of_prefix hpre,
      hload', Option.pure_def]

theorem NameIs.length_unique {name other : Option Bytes} {name_length name_length' : UInt8}
    (h : NameIs name name_length chars) (h' : NameIs other name_length' chars) :
    name_length' = name_length := UInt8.toNat_inj.mp (h'.1.trans h.1.symm)

end Names

section Elements

theorem ModuleInput.eq_self {mi : ModuleInput} {chars : Bytes}
    (h : NameIs mi.name mi.name_length chars) : mi.eq mi = some true := by
  have hname := sameName_eq h h
  simp only [decide_true] at hname
  simp [ModuleInput.eq, DataDeclaration.eq_self, get_name_length, hname]

theorem ModuleInput.Represents.eq {mi o : ModuleInput} {s : InputContents} (h : mi.Represents s)
    (h' : o.Represents s) : mi.eq o = some true := by
  have hlength := h.named.name.length_unique h'.named.name
  have hname := sameName_eq h.named.name (hlength ▸ h'.named.name)
  simp only [decide_true] at hname
  simp [ModuleInput.eq, h.named.data_type.eq h'.named.data_type, h.input_id_eq, h'.input_id_eq,
    get_name_length, hlength, hname]

theorem Sensor.Represents.eq {obj o : Sensor} {s : SensorContents} (h : obj.Represents s)
    (h' : o.Represents s) : obj.eq o = some true := by
  have hlength := h.named.name.length_unique h'.named.name
  have hname := ModuleInput.sameName_eq h.named.name (hlength ▸ h'.named.name)
  simp only [decide_true] at hname
  simp [Sensor.eq, h.named.data_type.eq h'.named.data_type, h.id_eq, h'.id_eq, h.type_eq, h'.type_eq,
    h.reporting_mode_eq, h'.reporting_mode_eq, hlength, hname]

theorem Sensor.eq_self {obj : Sensor} {chars : Bytes}
    (h : NameIs obj.name obj.name_length chars) : obj.eq obj = some true := by
  have hname := ModuleInput.sameName_eq h h
  simp only [decide_true] at hname
  simp [Sensor.eq, DataDeclaration.eq_self, hname]

-- A loop over arrays whose elements are equal in pairs comes to its end.
theorem eqEach_of_le {α : Type} {eq : α → α → Option Bool} {first second : SArray α} {as bs : List α}
    {count : Nat} (hfirst : first.Contains as) (hsecond : second.Contains bs)
    (h : List.Forall₂ (fun a b => eq a b = some true) as bs) (hcount : count ≤ as.length) :
    eqEach eq first second count = some true := by
  refine foldlM_all_iff.mpr ⟨rfl, fun i hi => ?_⟩
  have ha : i < as.length := Nat.lt_of_lt_of_le (List.mem_range.mp hi) hcount
  have hb : i < bs.length := h.length_eq ▸ ha
  have hpair : eq as[i] bs[i] = some true := h.get ha hb
  simp [hfirst.get, hsecond.get, List.getElem?_eq_getElem ha, List.getElem?_eq_getElem hb, hpair]

theorem eqEach_eq {α : Type} {eq : α → α → Option Bool} {first second : SArray α} {as bs : List α}
    (hfirst : first.Contains as) (hsecond : second.Contains bs)
    (h : List.Forall₂ (fun a b => eq a b = some true) as bs) :
    eqEach eq first second as.length = some true :=
  eqEach_of_le hfirst hsecond h (Nat.le_refl _)

-- A loop that finds no difference has found every pair of elements equal.
theorem forall₂_of_eqEach {α : Type} {eq : α → α → Option Bool} {first second : SArray α}
    {as bs : List α} (hfirst : first.Contains as) (hsecond : second.Contains bs)
    (hlength : as.length = bs.length) (h : eqEach eq first second as.length = some true) :
    List.Forall₂ (fun a b => eq a b = some true) as bs := by
  obtain ⟨-, hall⟩ := foldlM_all_iff.mp h
  refine List.forall₂_iff_get.mpr ⟨hlength, fun i hi hi' => ?_⟩
  have hpair := hall i (List.mem_range.mpr hi)
  rw [hfirst.get, hsecond.get, List.getElem?_eq_getElem hi, List.getElem?_eq_getElem hi'] at hpair
  exact hpair

theorem Module.sameName_eq {m o : Module} {chars : Bytes} (h : NameIs m.name m.name_length chars)
    (h' : NameIs o.name o.name_length chars) : m.sameName o = some true := by
  rw [sameName]
  by_cases hzero : m.name_length = 0
  · rw [if_pos hzero]
  · have hchars : chars ≠ [] := by
      rintro rfl
      exact hzero (UInt8.toNat_inj.mp h.1)
    obtain ⟨block, hname, hpre⟩ := h.2 hchars
    obtain ⟨block', hname', hpre'⟩ := h'.2 hchars
    rw [if_neg hzero, hname, hname', h.1]
    simp [ load_of_prefix hpre, load_of_prefix hpre']

theorem Module.Represents.eq {m o : Module} {s : ModuleContents} (h : m.Represents s)
    (h' : o.Represents s) : m.eq o = some true := by
  obtain ⟨inputs, hinputs, hri⟩ := h.inputs
  obtain ⟨inputs', hinputs', hri'⟩ := h'.inputs
  obtain ⟨sensors, hsensors, hrs⟩ := h.sensors
  obtain ⟨sensors', hsensors', hrs'⟩ := h'.sensors
  have hsame : List.Forall₂ (fun a b => ModuleInput.eq a b = some true) inputs inputs' :=
    forall₂_join (fun _ _ _ ha hb => ha.eq hb) hri hri'
  have hsame' : List.Forall₂ (fun a b => Sensor.eq a b = some true) sensors sensors' :=
    forall₂_join (fun _ _ _ ha hb => ha.eq hb) hrs hrs'
  have hni : m.num_inputs.toNat = inputs.length := h.num_inputs_eq.trans hri.length_eq.symm
  have hns : m.num_sensors.toNat = sensors.length := h.num_sensors_eq.trans hrs.length_eq.symm
  have hname := sameName_eq h.name h'.name
  rw [Module.eq, if_pos (h.shows.header_eq.trans h'.shows.header_eq.symm), hname, hns, hni,
    eqEach_eq (.inl hsensors) (.inl hsensors') hsame']
  exact eqEach_eq (.inl hinputs) (.inl hinputs') hsame

theorem Configuration.Represents.eq {c o : Configuration} {s : ConfigurationContents}
    (h : c.Represents s) (h' : o.Represents s) : c.eq o = some true := by
  obtain ⟨modules, hmodules, hrep⟩ := h.modules
  obtain ⟨modules', hmodules', hrep'⟩ := h'.modules
  have hsame : List.Forall₂ (fun a b => Module.eq a b = some true) modules modules' :=
    forall₂_join (fun _ _ _ ha hb => ha.eq hb) hrep hrep'
  have hcount : c.num_modules.toNat = modules.length := h.num_modules_eq.trans hrep.length_eq.symm
  have hcounts : c.num_modules = o.num_modules :=
    UInt8.toNat_inj.mp (h.num_modules_eq.trans h'.num_modules_eq.symm)
  rw [Configuration.eq, if_pos hcounts, hcount]
  exact eqEach_eq hmodules hmodules' hsame

end Elements

end RoboCrisp.Comms
