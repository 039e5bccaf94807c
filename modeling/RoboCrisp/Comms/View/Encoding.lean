import RoboCrisp.Comms.Configuration.History
import RoboCrisp.Comms.View

namespace RoboCrisp.Comms

open RoboCrisp.Stream RoboCrisp.Util

-- Contents tell all that there is to see.

section Shown

variable {δ : Type} {look : DataDeclaration → δ}

-- Declarations of the same contents look the same.
def Shown (look : DataDeclaration → δ) : Prop :=
  ∀ {obj o : DataDeclaration} {s : DeclarationContents}, obj.Represents s → o.Represents s →
    look obj = look o

theorem shown_view : Shown DataDeclaration.view :=
  fun h h' => DataDeclaration.eq_iff.mp (h.eq h')

theorem shown_arrays : Shown DataDeclaration.arrays := by
  intro obj o s h h'
  rw [DataDeclaration.arrays, DataDeclaration.arrays, h.is_array_eq, h'.is_array_eq,
    h.array_size_width_eq, h'.array_size_width_eq]

theorem Shown.input (hlook : Shown look) {mi o : ModuleInput} {s : InputContents}
    (h : mi.Represents s) (h' : o.Represents s) : mi.view look = o.view look := by
  rw [ModuleInput.view, ModuleInput.view, h.input_id_eq, h'.input_id_eq, h.named.name.view_eq,
    h'.named.name.view_eq, hlook h.named.data_type h'.named.data_type]

theorem Shown.sensor (hlook : Shown look) {sensor o : Sensor} {s : SensorContents}
    (h : sensor.Represents s) (h' : o.Represents s) : sensor.view look = o.view look := by
  rw [Sensor.view, Sensor.view, h.id_eq, h'.id_eq, h.type_eq, h'.type_eq, h.reporting_mode_eq,
    h'.reporting_mode_eq, h.named.name.view_eq, h'.named.name.view_eq,
    hlook h.named.data_type h'.named.data_type]

theorem Shown.module (hlook : Shown look) {m o : Module} {s : ModuleContents} (h : m.Shows s)
    (h' : o.Shows s) : m.view look = o.view look := by
  obtain ⟨inputs, hinputs, hri⟩ := h.inputs
  obtain ⟨inputs', hinputs', hri'⟩ := h'.inputs
  obtain ⟨sensors, hsensors, hrs⟩ := h.sensors
  obtain ⟨sensors', hsensors', hrs'⟩ := h'.sensors
  have hi : inputs.map (ModuleInput.view look) = inputs'.map (ModuleInput.view look) := by
    refine map_eq_of_forall₂ (forall₂_join ?_ hri hri')
    exact fun _ _ _ ha hb => hlook.input ha hb
  have hs : sensors.map (Sensor.view look) = sensors'.map (Sensor.view look) := by
    refine map_eq_of_forall₂ (forall₂_join ?_ hrs hrs')
    exact fun _ _ _ ha hb => hlook.sensor ha hb
  rw [Module.view, Module.view, h.id_eq, h'.id_eq, h.name.view_eq, h'.name.view_eq, hinputs, hinputs',
    hsensors, hsensors', Option.getD_some, Option.getD_some, Option.getD_some, Option.getD_some, hi, hs]

theorem Shown.configuration (hlook : Shown look) {c o : Configuration} {s : ConfigurationContents}
    (h : c.Shows s) (h' : o.Shows s) : c.view look = o.view look := by
  obtain ⟨modules, hmodules, hshow⟩ := h.modules
  obtain ⟨modules', hmodules', hshow'⟩ := h'.modules
  rw [Configuration.view, Configuration.view, hmodules, hmodules', Option.getD_some, Option.getD_some]
  refine map_eq_of_forall₂ (forall₂_join ?_ hshow hshow')
  exact fun _ _ _ ha hb => hlook.module ha hb

end Shown

section Same

-- And they depend on nothing else.

theorem DataDeclaration.Holds.of_view_eq {width : BitVec 5} {present present' : Bool}
    {slot slot' : Slot} {bound : Option (Bound width.toNat)} (h : Holds present slot bound)
    (hview : slot.view present width = slot'.view present' width) : Holds present' slot' bound := by
  obtain ⟨rfl, hbytes⟩ := Slot.view_eq_iff.mp hview
  refine ⟨h.present_eq, fun b hb => ?_⟩
  have hpresent : present = true := by rw [h.present_eq, hb, Option.isSome_some]
  have htake := hbytes.resolve_left (by simp [hpresent])
  have hpre := List.prefix_iff_eq_take.mp (h.prefix_of b hb)
  rw [b.length_eq, htake] at hpre
  rw [hpre]
  exact List.take_prefix _ _

theorem DataDeclaration.Represents.of_view_eq {obj o : DataDeclaration} {s : DeclarationContents}
    (h : obj.Represents s) (hview : obj.view = o.view) (harrays : obj.arrays = o.arrays) :
    o.Represents s := by
  obtain ⟨htype, hwidth, hsigned, hneutral, hminimum, hmaximum⟩ := DeclarationView.mk.inj hview
  obtain ⟨harray, hsize⟩ := ArrayView.mk.inj harrays
  rw [← hwidth, h.width_eq] at hneutral hminimum hmaximum
  exact {
    type_eq := htype.symm.trans h.type_eq
    width_eq := hwidth.symm.trans h.width_eq
    is_array_eq := harray.symm.trans h.is_array_eq
    is_signed_eq := hsigned.symm.trans h.is_signed_eq
    array_size_width_eq := hsize.symm.trans h.array_size_width_eq
    neutral := h.neutral.of_view_eq hneutral
    minimum := h.minimum.of_view_eq hminimum
    maximum := h.maximum.of_view_eq hmaximum }

theorem NameIs.of_view_eq {name other : Option Bytes} {name_length name_length' : UInt8}
    {chars : Bytes} (h : NameIs name name_length chars) (ho : Named other name_length')
    (hview : nameView name name_length = nameView other name_length') :
    NameIs other name_length' chars := by
  rw [← h.view_eq, hview]
  exact ho.nameIs

theorem ModuleInput.Represents.of_view_eq {mi o : ModuleInput} {s : InputContents}
    (h : mi.Represents s) (ho : o.Complete)
    (hview : mi.view DataDeclaration.view = o.view DataDeclaration.view)
    (harrays : mi.view DataDeclaration.arrays = o.view DataDeclaration.arrays) :
    o.Represents s := by
  obtain ⟨hid, hname, hdata⟩ := InputView.mk.inj hview
  obtain ⟨-, -, hsizes⟩ := InputView.mk.inj harrays
  exact ⟨⟨h.named.data_type.of_view_eq hdata hsizes, h.named.name.of_view_eq ho.named hname⟩,
    hid.symm.trans h.input_id_eq⟩

theorem Sensor.Represents.of_view_eq {sensor o : Sensor} {s : SensorContents}
    (h : sensor.Represents s) (ho : o.Complete)
    (hview : sensor.view DataDeclaration.view = o.view DataDeclaration.view)
    (harrays : sensor.view DataDeclaration.arrays = o.view DataDeclaration.arrays) :
    o.Represents s := by
  obtain ⟨hid, htype, hmode, hname, hdata⟩ := SensorView.mk.inj hview
  obtain ⟨-, -, -, -, hsizes⟩ := SensorView.mk.inj harrays
  exact ⟨⟨h.named.data_type.of_view_eq hdata hsizes, h.named.name.of_view_eq ho.named hname⟩,
    hid.symm.trans h.id_eq, htype.symm.trans h.type_eq, hmode.symm.trans h.reporting_mode_eq⟩

theorem forall₂_of_map_eq {α β γ ι : Type} {A B : α → ι → Prop} {f : α → β} {g : α → γ}
    {as bs : List α} {is : List ι} (h : List.Forall₂ A as is) (hf : as.map f = bs.map f)
    (hg : as.map g = bs.map g)
    (hkeep : ∀ a b i, b ∈ bs → A a i → f a = f b → g a = g b → B b i) : List.Forall₂ B bs is := by
  induction h generalizing bs with
  | nil =>
      obtain rfl := List.map_eq_nil_iff.mp hf.symm
      exact .nil
  | @cons a i as is hhead _ ih =>
      obtain ⟨b, bs, rfl, hfb, hfbs⟩ := List.map_eq_cons_iff.mp hf.symm
      obtain ⟨hgb, hgbs⟩ := List.cons_eq_cons.mp hg
      exact .cons (hkeep a b i List.mem_cons_self hhead hfb.symm hgb)
        (ih hfbs.symm hgbs fun a b i hb => hkeep a b i (List.mem_cons_of_mem _ hb))

theorem Module.Shows.of_view_eq {m o : Module} {s : ModuleContents} (h : m.Shows s)
    (ho : o.Complete) (hview : m.view DataDeclaration.view = o.view DataDeclaration.view)
    (harrays : m.view DataDeclaration.arrays = o.view DataDeclaration.arrays) : o.Shows s := by
  obtain ⟨inputs, hinputs, hri⟩ := h.inputs
  obtain ⟨sensors, hsensors, hrs⟩ := h.sensors
  obtain ⟨inputs', hinputs', hni⟩ := ho.counted.inputs.exists_elems
  obtain ⟨sensors', hsensors', hns⟩ := ho.counted.sensors.exists_elems
  simp only [Module.view, hinputs, hinputs', hsensors, hsensors', Option.getD_some,
    ModuleView.mk.injEq] at hview harrays
  obtain ⟨hid, hname, hi, hs⟩ := hview
  obtain ⟨-, -, hi', hs'⟩ := harrays
  have hri' := forall₂_of_map_eq (B := ModuleInput.Represents) hri hi hi' fun a b i hb ha hv hw =>
    ha.of_view_eq (ho.inputs inputs' hinputs' b hb) hv hw
  have hrs' := forall₂_of_map_eq (B := Sensor.Represents) hrs hs hs' fun a b i hb ha hv hw =>
    ha.of_view_eq (ho.sensors sensors' hsensors' b hb) hv hw
  exact ⟨hid.symm.trans h.id_eq, h.name.of_view_eq ho.named hname, hni.trans hri'.length_eq,
    ⟨inputs', hinputs', hri'⟩, hns.trans hrs'.length_eq, ⟨sensors', hsensors', hrs'⟩⟩

theorem Configuration.Shows.of_view_eq {c o : Configuration} {s : ConfigurationContents}
    (h : c.Shows s) (ho : o.Complete)
    (hview : c.view DataDeclaration.view = o.view DataDeclaration.view)
    (harrays : c.view DataDeclaration.arrays = o.view DataDeclaration.arrays) : o.Shows s := by
  obtain ⟨modules, hmodules, hshow⟩ := h.modules
  obtain ⟨modules', hmodules', hcount⟩ := ho.counted.counts.exists_elems
  rw [Configuration.view, Configuration.view, hmodules, hmodules'] at hview harrays
  have hshow' := forall₂_of_map_eq (B := Module.Shows) hshow hview harrays fun a b i hb ha hv hw =>
    ha.of_view_eq (ho.modules modules' hmodules' b hb) hv hw
  exact ⟨hcount.trans hshow'.length_eq, modules', hmodules', hshow'⟩

end Same

section Contents

theorem NamedTyped.Complete.exists_represents {obj : NamedTyped} (h : obj.Complete) :
    ∃ s, obj.Represents s := by
  have hsound : obj.data_type.Sound := fun _ => h.width_le
  obtain ⟨data_type, hdata⟩ := hsound.exists_represents
  have hname := h.named.nameIs
  exact ⟨⟨nameView obj.name obj.name_length, by rw [← hname.1]; exact obj.name_length.toNat_lt,
    data_type⟩, hdata, hname⟩

theorem Module.Complete.exists_shows {m : Module} (h : m.Complete) : ∃ s, m.Shows s := by
  obtain ⟨inputs, hinputs, hni⟩ := h.counted.inputs.exists_elems
  obtain ⟨sensors, hsensors, hns⟩ := h.counted.sensors.exists_elems
  obtain ⟨iitems, hri⟩ := exists_forall₂ fun input hinput =>
    ModuleInput.exists_represents (h.inputs inputs hinputs input hinput).exists_represents
  obtain ⟨sitems, hrs⟩ := exists_forall₂ fun sensor hsensor =>
    Sensor.exists_represents (h.sensors sensors hsensors sensor hsensor).exists_represents
  have hname := h.named.nameIs
  rw [hri.length_eq] at hni
  rw [hrs.length_eq] at hns
  exact ⟨⟨m.id, nameView m.name m.name_length, by rw [← hname.1]; exact m.name_length.toNat_lt, iitems,
    by rw [← hni]; exact m.num_inputs.toNat_lt, sitems, by rw [← hns]; exact m.num_sensors.toNat_lt⟩,
    rfl, hname, hni, ⟨inputs, hinputs, hri⟩, hns, ⟨sensors, hsensors, hrs⟩⟩

theorem Configuration.Complete.exists_shows {c : Configuration} (h : c.Complete) :
    ∃ s, c.Shows s := by
  obtain ⟨modules, hmodules, hcount⟩ := h.counted.counts.exists_elems
  obtain ⟨items, hitems⟩ := exists_forall₂ fun m hm => (h.modules modules hmodules m hm).exists_shows
  rw [hitems.length_eq] at hcount
  exact ⟨⟨items, by rw [← hcount]; exact c.num_modules.toNat_lt⟩, hcount, modules, hmodules, hitems⟩

end Contents

namespace Configuration

variable {a b c : Configuration} {s t : ConfigurationContents}

theorem Shows.encoding_eq (h : c.Shows s) : c.encoding = some s.wire := by
  have hstores := h.stores (Sink.ofList (List.replicate s.wire.length 0))
    (by rw [Sink.free_eq]; simp [Sink.ofList])
  rw [encoding, h.get_encoded_size_eq, Option.bind_eq_bind, Option.bind_some, hstores]
  simp [Sink.append, Sink.ofList]

-- What is decoded from bytes that two contents share has both of them.
theorem exists_shows_both (hwire : s.wire = t.wire) : ∃ c : Configuration, c.Shows s ∧ c.Shows t := by
  let _ := Heap.zeros
  have hempty : (empty 0).modules.Holds [] := SArray.holds_alloc 0
  obtain ⟨out, modules, hdecode, hcount, -, hholds, hmatches⟩ :=
    consumes_decode s (hempty.clear.ensure_capacity _).1
  obtain ⟨out', modules', hdecode', hcount', -, hholds', hmatches'⟩ :=
    consumes_decode t (hempty.clear.ensure_capacity _).1
  rw [← hwire] at hdecode'
  obtain ⟨-, rfl⟩ := Prod.mk.inj (hdecode.unique hdecode')
  have hrep : out.Represents s := ⟨hcount, modules, .inl hholds, hmatches.imp fun _ _ hm => hm.1⟩
  have hrep' : out.Represents t := ⟨hcount', modules', .inl hholds', hmatches'.imp fun _ _ hm => hm.1⟩
  exact ⟨out, hrep.shows, hrep'.shows⟩

-- The bytes say as much as there is to see.
theorem encoding_eq_iff (ha : a.Complete) (hb : b.Complete) : a.encoding = b.encoding ↔
    a.view DataDeclaration.view = b.view DataDeclaration.view ∧
      a.view DataDeclaration.arrays = b.view DataDeclaration.arrays := by
  obtain ⟨s, hs⟩ := ha.exists_shows
  obtain ⟨t, ht⟩ := hb.exists_shows
  rw [hs.encoding_eq, ht.encoding_eq, Option.some.injEq]
  constructor
  · intro hwire
    obtain ⟨c, hcs, hct⟩ := exists_shows_both hwire
    exact ⟨(shown_view.configuration hs hcs).trans (shown_view.configuration hct ht),
      (shown_arrays.configuration hs hcs).trans (shown_arrays.configuration hct ht)⟩
  · rintro ⟨hview, harrays⟩
    have hb := (hs.of_view_eq hb hview harrays).encoding_eq
    exact Option.some.inj (hb.symm.trans ht.encoding_eq)

-- The comparison has a result, which says whether the encodings are the same.
def Agrees (a b : Configuration) : Prop :=
  ∃ same, a.eq b = some same ∧ (same = true ↔ a.encoding = b.encoding)

-- The comparison goes with the bytes unless all that differs is whether some of the declared
-- types are arrays, or the width of their sizes.
theorem agrees_iff (ha : a.Complete) (hb : b.Complete) : a.Agrees b ↔
    (a.view DataDeclaration.view = b.view DataDeclaration.view →
      a.view DataDeclaration.arrays = b.view DataDeclaration.arrays) := by
  rw [Agrees, encoding_eq_iff ha hb, eq_eq_decide ha hb]
  constructor
  · rintro ⟨same, hsame, hiff⟩ hview
    rw [decide_eq_true hview] at hsame
    exact (hiff.mp (Option.some.inj hsame).symm).2
  · intro h
    refine ⟨_, rfl, ?_⟩
    rw [decide_eq_true_iff]
    exact ⟨fun hview => ⟨hview, h hview⟩, fun hboth => hboth.1⟩

theorem Numbered.complete {next : UInt8}
    (h : c.Numbered (fun data_type => data_type.width.toNat ≤ 16) next) : c.Complete := by
  refine ⟨h.filled.counted, fun modules' hmodules m hm => ?_⟩
  have hcounted := h.filled.counted.modules modules' hmodules m hm
  obtain ⟨modules, hholds, horder, -⟩ := h
  obtain rfl := Option.some.inj (hholds.elems.symm.trans hmodules)
  have hdense := horder.good m hm
  obtain ⟨chars, hname, -⟩ := hdense.name
  refine ⟨hcounted, hname.named, fun inputs' hinputs input hinput => ?_,
    fun sensors' hsensors sensor hsensor => ?_⟩
  · obtain ⟨inputs, hiholds, hiorder, -⟩ := hdense.inputs
    obtain rfl := Option.some.inj (hiholds.elems.symm.trans hinputs)
    have hplain := hiorder.good input hinput
    obtain ⟨chars, hname, -⟩ := hplain.name
    exact ⟨hplain.data_type, hname.named⟩
  · obtain ⟨sensors, hsholds, hsorder, -⟩ := hdense.sensors
    obtain rfl := Option.some.inj (hsholds.elems.symm.trans hsensors)
    have hplain := hsorder.good sensor hsensor
    obtain ⟨chars, hname, -⟩ := hplain.name
    exact ⟨hplain.data_type, hname.named⟩

theorem drive_complete : drive.Complete := by
  have hbuilt : drive.Built fun data_type => data_type.width.toNat ≤ 16 :=
    drive_built.imp fun _ h => h.1
  exact hbuilt.numbered.complete

theorem drive_agrees : drive.Agrees drive :=
  (agrees_iff drive_complete drive_complete).mpr fun _ => rfl

-- The same with an array of speeds.
def speedsSteps : List BuildStep :=
  [.add_module (.declare (some ⟨[100, 114, 105, 118, 101], drive_no_nul⟩) 2 0),
    .add_input 0 (some ⟨[115, 112, 101, 101, 100], speed_no_nul⟩) 0 { speed with is_array := true } false]

def speeds : Configuration := (speedsSteps.foldlM BuildStep.runWithin (empty 0)).get (by decide)

theorem speeds_complete : speeds.Complete := by
  have hsteps : ∀ step ∈ speedsSteps, step.Allowed fun data_type => data_type.width.toNat ≤ 16 := by
    intro step hstep
    rcases List.mem_pair.mp hstep with rfl | rfl
    · trivial
    · exact (by decide : speed.width.toNat ≤ 16)
  have hbuilt : speeds.Built fun data_type => data_type.width.toNat ≤ 16 :=
    (Built.empty 0).run_steps hsteps (Option.some_get _).symm
  exact hbuilt.numbered.complete

theorem drive_not_agrees : drive.Complete ∧ speeds.Complete ∧ ¬drive.Agrees speeds := by
  refine ⟨drive_complete, speeds_complete, ?_⟩
  rintro ⟨same, hsame, hiff⟩
  have heq : drive.eq speeds = some true := by decide
  obtain rfl := Option.some.inj (heq.symm.trans hsame)
  exact absurd (hiff.mp rfl) (by decide)

end Configuration

end RoboCrisp.Comms
