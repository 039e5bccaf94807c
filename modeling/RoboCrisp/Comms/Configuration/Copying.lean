import RoboCrisp.Comms.Configuration.Copyable
import RoboCrisp.Comms.Equality
import Mathlib.Data.List.Forall2

namespace RoboCrisp.Comms

open RoboCrisp.Stream RoboCrisp.Util RoboCrisp.Transition

-- A name for which an object has a block of its own.
structure OwnedName where
  name_length : UInt8
  block : Bytes
deriving DecidableEq

namespace OwnedName

-- The characters and a NUL behind them, as decode leaves it.
def Terminated (name : OwnedName) : Prop :=
  name.block.length = name.name_length.toNat + 1 ∧ name.block.getLast? = some 0

-- strncpy finds no NUL in front of another character.
def Intact (name : OwnedName) : Prop :=
  strncpy name.block name.name_length.toNat = some (name.block.take name.name_length.toNat)

end OwnedName

def ownedName (owns_name : Bool) (name_length : UInt8) (name : Option Bytes) : List OwnedName :=
  if owns_name then name.toList.map (OwnedName.mk name_length) else []

def NamedTyped.owned_names (obj : NamedTyped) : List OwnedName :=
  ownedName obj.owns_name obj.name_length obj.name

def Module.owned_names (m : Module) : List OwnedName :=
  ownedName m.owns_name m.name_length m.name ++
    ((m.inputs.elems.getD []).flatMap (fun v => v.toNamedTyped.owned_names) ++
      (m.sensors.elems.getD []).flatMap fun v => v.toNamedTyped.owned_names)

def Configuration.owned_names (c : Configuration) : List OwnedName :=
  (c.modules.elems.getD []).flatMap Module.owned_names

-- What a copy is to be.
structure Configuration.Preserves (c copy : Configuration) : Prop where
  encode_eq : copy.encode = c.encode
  eq : copy.eq c = some true
  names : ∀ name ∈ copy.owned_names, name.Terminated

section Renewed

-- A copied name has a block of just its length.
def Renewed : List OwnedName → List OwnedName → Prop :=
  List.Forall₂ fun name copy =>
    copy.name_length = name.name_length ∧ copy.block.length = name.name_length.toNat

variable {names copies more : List OwnedName}

theorem Renewed.trans (h : Renewed names copies) (h' : Renewed copies more) : Renewed names more := by
  induction h generalizing more with
  | nil => exact h'
  | cons hhead htail ih =>
      cases h' with
      | cons hhead' htail' =>
          exact .cons ⟨hhead'.1.trans hhead.1, hhead.1 ▸ hhead'.2⟩ (ih htail')

theorem Renewed.not_terminated (h : Renewed names copies) (hnames : names ≠ []) :
    ¬∀ copy ∈ copies, copy.Terminated := by
  cases h with
  | nil => exact absurd rfl hnames
  | cons hhead htail =>
      intro hall
      have hlength := (hall _ List.mem_cons_self).1
      rw [hhead.1, hhead.2] at hlength
      exact absurd hlength (Nat.ne_of_lt (Nat.lt_succ_self _))

theorem NameCopied.renewed {owns_name : Bool} {name_length : UInt8} {name name' : Option Bytes}
    (h : NameCopied owns_name name_length name name') :
    Renewed (ownedName owns_name name_length name) (ownedName owns_name name_length name') := by
  cases h with
  | shared h =>
      have hnone : ownedName owns_name name_length name = [] := by
        rcases h with rfl | rfl <;> simp [ownedName]
      rw [hnone]
      exact .nil
  | owned howns hname hcopy =>
      rw [hname]
      simp only [ownedName, howns, ite_true, Option.toList_some, List.map_cons, List.map_nil]
      exact .cons ⟨rfl, length_strncpy hcopy⟩ .nil

-- Every element of an array goes through two copies.
theorem renewed_copies {α : Type} {copyElement : α → Option α} {names : α → List OwnedName}
    (hcopy : ∀ v w, copyElement v = some w → Renewed (names v) (names w)) {elements copies : List α}
    (h : List.Forall₂ (fun v copy => (copyElement v >>= copyElement) = some copy) elements copies) :
    Renewed (elements.flatMap names) (copies.flatMap names) := by
  refine List.rel_flatMap h fun v copy hv => ?_
  obtain ⟨middle, hfirst, hsecond⟩ := Option.bind_eq_some_iff.mp hv
  exact (hcopy v middle hfirst).trans (hcopy middle copy hsecond)

theorem renewed_elems {α : Type} {copyElement : α → Option α} {names : α → List OwnedName}
    (hcopy : ∀ v w, copyElement v = some w → Renewed (names v) (names w)) {array array' : SArray α}
    (h : array.copy copyElement = some array') :
    Renewed ((array.elems.getD []).flatMap names) ((array'.elems.getD []).flatMap names) := by
  obtain ⟨elements, helems, -⟩ := Option.bind_eq_some_iff.mp h
  obtain ⟨copies, hholds, hcopies⟩ := SArray.holds_of_copy helems h
  rw [helems, hholds.elems]
  exact renewed_copies hcopy hcopies

theorem NamedTyped.renewed_copy {obj copy : NamedTyped} (h : obj.copy = some copy) :
    Renewed obj.owned_names copy.owned_names := by
  obtain ⟨name, hcopied, rfl⟩ := copy_cases h
  exact hcopied.renewed

theorem ModuleInput.renewed_copy (v w : ModuleInput) (h : v.copy = some w) :
    Renewed v.toNamedTyped.owned_names w.toNamedTyped.owned_names := by
  obtain ⟨named, hnamed, h⟩ := Option.bind_eq_some_iff.mp h
  obtain rfl := Option.some.inj h
  exact NamedTyped.renewed_copy hnamed

theorem Sensor.renewed_copy (v w : Sensor) (h : v.copy = some w) :
    Renewed v.toNamedTyped.owned_names w.toNamedTyped.owned_names := by
  obtain ⟨named, hnamed, h⟩ := Option.bind_eq_some_iff.mp h
  obtain rfl := Option.some.inj h
  exact NamedTyped.renewed_copy hnamed

theorem Module.renewed_copy (m m' : Module) (h : m.copy = some m') :
    Renewed m.owned_names m'.owned_names := by
  obtain ⟨name, inputs, sensors, hcopied, hinputs, hsensors, rfl⟩ := copy_cases h
  exact List.rel_append hcopied.renewed (List.rel_append
    (renewed_elems ModuleInput.renewed_copy hinputs) (renewed_elems Sensor.renewed_copy hsensors))

theorem Configuration.renewed_copy {c copy : Configuration} (h : c.copy = some copy) :
    Renewed c.owned_names copy.owned_names := by
  obtain ⟨modules, hmodules, h⟩ := Option.bind_eq_some_iff.mp h
  obtain rfl := Option.some.inj h
  exact renewed_elems Module.renewed_copy hmodules

end Renewed

section Elements

variable {α : Type} {copyElement : α → Option α} {Good : α → Prop} {Twin : α → α → Prop}

-- What each of two copies in a row keeps.
theorem exists_twin (htrans : ∀ u v w, Twin u v → Twin v w → Twin u w)
    (hcopy : ∀ v, Good v → ∃ w, copyElement v = some w ∧ Twin v w ∧ Good w) {v : α} (hv : Good v) :
    ∃ w, (copyElement v >>= copyElement) = some w ∧ Twin v w ∧ Good w := by
  obtain ⟨middle, hfirst, htwin, hmiddle⟩ := hcopy v hv
  obtain ⟨w, hsecond, htwin', hw⟩ := hcopy middle hmiddle
  refine ⟨w, ?_, htrans v middle w htwin htwin', hw⟩
  rw [hfirst]
  exact hsecond

theorem exists_twins (htrans : ∀ u v w, Twin u v → Twin v w → Twin u w)
    (hcopy : ∀ v, Good v → ∃ w, copyElement v = some w ∧ Twin v w ∧ Good w) {elements : List α}
    (hgood : ∀ v ∈ elements, Good v) :
    ∃ copies, List.Forall₂ (fun v copy => (copyElement v >>= copyElement) = some copy) elements copies ∧
      List.Forall₂ Twin elements copies ∧ ∀ copy ∈ copies, Good copy := by
  induction elements with
  | nil => exact ⟨[], .nil, .nil, by simp⟩
  | cons v elements ih =>
      rw [List.forall_mem_cons] at hgood
      obtain ⟨w, hw, htwin, hgoodw⟩ := exists_twin htrans hcopy hgood.1
      obtain ⟨copies, hcopies, htwins, hrest⟩ := ih hgood.2
      exact ⟨w :: copies, .cons hw hcopies, .cons htwin htwins, List.forall_mem_cons.mpr ⟨hgoodw, hrest⟩⟩

end Elements

section Names

variable {name_length : UInt8} {name name' name'' : Option Bytes} {chars : Bytes}

-- Two pointers to the same characters, or none at all.
structure NameTwin (name_length : UInt8) (name name' : Option Bytes) : Prop where
  spelled : ∃ chars, NameIs name name_length chars ∧ NameIs name' name_length chars
  isSome_eq : name'.isSome = name.isSome

theorem NameTwin.trans (h : NameTwin name_length name name') (h' : NameTwin name_length name' name'') :
    NameTwin name_length name name'' := by
  obtain ⟨chars, hname, hname'⟩ := h.spelled
  obtain ⟨chars', hmiddle, hname''⟩ := h'.spelled
  obtain rfl := hname'.unique hmiddle
  exact ⟨⟨chars, hname, hname''⟩, h'.isSome_eq.trans h.isSome_eq⟩

theorem NameTwin.writeName_eq (h : NameTwin name_length name name') :
    writeName name' name_length = writeName name name_length := by
  obtain ⟨chars, hname, hname'⟩ := h.spelled
  rw [hname.writeName_eq, hname'.writeName_eq]

theorem NameTwin.sameName_eq (h : NameTwin name_length name name') :
    ModuleInput.sameName name' name name_length.toNat = some true := by
  obtain ⟨chars, hname, hname'⟩ := h.spelled
  rw [ModuleInput.sameName_eq hname' hname, decide_eq_true rfl]

theorem nameTwin_self (h : NameIs name name_length chars) : NameTwin name_length name name :=
  ⟨⟨chars, h, h⟩, rfl⟩

-- The copy of an intact name is intact, and spells the same.
theorem exists_copy_of_intact {block : Bytes} (h : NameIs (some block) name_length chars)
    (hintact : OwnedName.Intact ⟨name_length, block⟩) :
    ∃ copy, strncpy block name_length.toNat = some copy ∧
      NameTwin name_length (some block) (some copy) ∧ OwnedName.Intact ⟨name_length, copy⟩ := by
  have hlength : (block.take name_length.toNat).length = name_length.toNat := length_strncpy hintact
  have hchars : chars = block.take name_length.toNat := by
    rw [h.1]
    exact List.prefix_iff_eq_take.mp h.prefix_of
  refine ⟨_, hintact, ⟨⟨chars, h, ?_⟩, rfl⟩, ?_⟩
  · rw [hchars]
    exact nameIs_of_length hlength
  · simp only [OwnedName.Intact, strncpy] at hintact ⊢
    rw [if_neg (by rw [hlength]; exact fun h => absurd h.1 (Nat.lt_irrefl _)), List.take_take,
      Nat.min_self]
    exact (Option.ite_none_left_eq_some.mp hintact).2 ▸ rfl

theorem exists_nameCopied {owns_name : Bool} (hname : NameIs name name_length chars)
    (hintact : ∀ owned ∈ ownedName owns_name name_length name, owned.Intact) :
    ∃ name', NameCopied owns_name name_length name name' ∧ NameTwin name_length name name' ∧
      ∀ owned ∈ ownedName owns_name name_length name', owned.Intact := by
  cases owns_name with
  | false => exact ⟨name, .shared (.inl rfl), nameTwin_self hname, hintact⟩
  | true =>
      cases name with
      | none => exact ⟨none, .shared (.inr rfl), nameTwin_self hname, hintact⟩
      | some block =>
          have hblock : OwnedName.Intact ⟨name_length, block⟩ := hintact _ (by simp [ownedName])
          obtain ⟨copy, hcopy, htwin, hcopied⟩ := exists_copy_of_intact hname hblock
          exact ⟨some copy, .owned rfl rfl hcopy, htwin, by simpa [ownedName] using hcopied⟩

end Names

namespace NamedTyped

variable {obj : NamedTyped}

structure Intact (obj : NamedTyped) : Prop where
  spelled : obj.Spelled
  names : ∀ name ∈ obj.owned_names, name.Intact

theorem copy_of_nameCopied {name : Option Bytes}
    (h : NameCopied obj.owns_name obj.name_length obj.name name) :
    obj.copy = some { obj with name } := by
  obtain ⟨name_length, data_type, old, owns_name⟩ := obj
  cases h with
  | shared h =>
      rcases h with h | h
      · obtain rfl : owns_name = false := h
        cases old <;> rfl
      · obtain rfl : old = none := h
        rfl
  | owned howns hname hcopy =>
      obtain rfl : owns_name = true := howns
      obtain rfl : old = some _ := hname
      change strncpy _ name_length.toNat = some _ at hcopy
      simp only [NamedTyped.copy, ite_true, hcopy]
      rfl

theorem Intact.exists_copy (h : obj.Intact) :
    ∃ name, obj.copy = some { obj with name } ∧ NameTwin obj.name_length obj.name name ∧
      ({ obj with name } : NamedTyped).Intact := by
  obtain ⟨chars, hname⟩ := h.spelled
  obtain ⟨name, hcopied, htwin, hnames⟩ := exists_nameCopied hname h.names
  exact ⟨name, copy_of_nameCopied hcopied, htwin, hcopied.exists_nameIs h.spelled, hnames⟩

end NamedTyped

namespace ModuleInput

-- Inputs that only differ in where they keep their names.
inductive Twin (mi : ModuleInput) : ModuleInput → Prop
  | mk {name : Option Bytes} (h : NameTwin mi.name_length mi.name name) : Twin mi { mi with name }

variable {mi o : ModuleInput}

theorem Twin.trans (u v w : ModuleInput) (h : u.Twin v) (h' : v.Twin w) : u.Twin w := by
  cases h with
  | mk h => cases h' with
    | mk h' => exact .mk (h.trans h')

theorem Twin.encode_eq (h : mi.Twin o) : o.encode = mi.encode := by
  cases h with
  | mk h =>
      simp only [ModuleInput.encode, NamedTyped.encode, h.writeName_eq]
      rfl

theorem Twin.get_encoded_size_eq (h : mi.Twin o) : o.get_encoded_size = mi.get_encoded_size := by
  cases h with
  | mk h => rfl

theorem Twin.eq (h : mi.Twin o) : o.eq mi = some true := by
  cases h with
  | mk h => simp [ModuleInput.eq, DataDeclaration.eq_self, get_name_length, h.sameName_eq]

theorem exists_copy (mi : ModuleInput) (h : mi.toNamedTyped.Intact) :
    ∃ o, mi.copy = some o ∧ mi.Twin o ∧ o.toNamedTyped.Intact := by
  obtain ⟨name, hcopy, htwin, hintact⟩ := h.exists_copy
  refine ⟨{ mi with name }, ?_, .mk htwin, hintact⟩
  rw [ModuleInput.copy, hcopy]
  rfl

end ModuleInput

namespace Sensor

inductive Twin (s : Sensor) : Sensor → Prop
  | mk {name : Option Bytes} (h : NameTwin s.name_length s.name name) : Twin s { s with name }

variable {s o : Sensor}

theorem Twin.trans (u v w : Sensor) (h : u.Twin v) (h' : v.Twin w) : u.Twin w := by
  cases h with
  | mk h => cases h' with
    | mk h' => exact .mk (h.trans h')

theorem Twin.get_encoded_size_eq (h : s.Twin o) : o.get_encoded_size = s.get_encoded_size := by
  cases h with
  | mk h => simp only [get_encoded_size, get_tail_size, get_name_length, h.isSome_eq]

theorem Twin.encode_eq (h : s.Twin o) : o.encode = s.encode := by
  have hsize := h.get_encoded_size_eq
  cases h with
  | mk h =>
      simp only [Sensor.encode, hsize, NamedTyped.encode, h.writeName_eq]
      rfl

theorem Twin.eq (h : s.Twin o) : o.eq s = some true := by
  cases h with
  | mk h => simp [Sensor.eq, DataDeclaration.eq_self, h.sameName_eq]

theorem exists_copy (s : Sensor) (h : s.toNamedTyped.Intact) :
    ∃ o, s.copy = some o ∧ s.Twin o ∧ o.toNamedTyped.Intact := by
  obtain ⟨name, hcopy, htwin, hintact⟩ := h.exists_copy
  refine ⟨{ s with name }, ?_, .mk htwin, hintact⟩
  rw [Sensor.copy, hcopy]
  rfl

end Sensor

section Arrays

variable {α : Type} {copyElement : α → Option α} {Good : α → Prop} {Twin : α → α → Prop}
  {array array' : SArray α} {elements : List α}

def ArrayTwin (Twin : α → α → Prop) (array array' : SArray α) : Prop :=
  ∃ elements copies, array.Holds elements ∧ array'.Holds copies ∧ List.Forall₂ Twin elements copies

theorem ArrayTwin.trans (htrans : ∀ u v w, Twin u v → Twin v w → Twin u w) {array'' : SArray α}
    (h : ArrayTwin Twin array array') (h' : ArrayTwin Twin array' array'') :
    ArrayTwin Twin array array'' := by
  obtain ⟨elements, copies, hholds, hcopies, htwins⟩ := h
  obtain ⟨copies', more, hcopies', hmore, htwins'⟩ := h'
  obtain rfl := hcopies.unique hcopies'
  exact ⟨elements, more, hholds, hmore,
    forall₂_join (fun u w v huv hvw => htrans u v w huv hvw) htwins htwins'.flip⟩

end Arrays

namespace Module

inductive Twin (m : Module) : Module → Prop
  | mk {name : Option Bytes} {inputs : SArray ModuleInput} {sensors : SArray Sensor}
      (hname : NameTwin m.name_length m.name name)
      (hinputs : ArrayTwin ModuleInput.Twin m.inputs inputs)
      (hsensors : ArrayTwin Sensor.Twin m.sensors sensors) : Twin m { m with name, inputs, sensors }

variable {m o : Module}

theorem Twin.trans (u v w : Module) (h : u.Twin v) (h' : v.Twin w) : u.Twin w := by
  cases h with
  | mk hname hinputs hsensors => cases h' with
    | mk hname' hinputs' hsensors' =>
        exact .mk (hname.trans hname') (hinputs.trans ModuleInput.Twin.trans hinputs')
          (hsensors.trans Sensor.Twin.trans hsensors')

theorem encodeEach_eq {α : Type} {Twin : α → α → Prop} {encode : α → Encode}
    {get_encoded_size : α → Nat} (hencode : ∀ v w, Twin v w → encode w = encode v)
    (hsize : ∀ v w, Twin v w → get_encoded_size w = get_encoded_size v) {elements copies : List α}
    (h : List.Forall₂ Twin elements copies) :
    encodeEach encode get_encoded_size copies = encodeEach encode get_encoded_size elements := by
  induction h with
  | nil => rfl
  | cons hhead htail ih => simp only [encodeEach, hencode _ _ hhead, hsize _ _ hhead, ih]

theorem encode_inputs_eq {inputs : List ModuleInput} (h : m.inputs.elems = some inputs) :
    m.encode_inputs = if m.num_inputs > 0 then
      encodeEach ModuleInput.encode ModuleInput.get_encoded_size inputs else pure .SUCCESS := by
  rw [encode_inputs, h]
  rfl

theorem encode_sensors_eq {sensors : List Sensor} (h : m.sensors.elems = some sensors) :
    m.encode_sensors = if m.num_sensors > 0 then
      encodeEach Sensor.encode Sensor.get_encoded_size sensors else pure .SUCCESS := by
  rw [encode_sensors, h]
  rfl

theorem Twin.encode_eq (h : m.Twin o) : o.encode = m.encode := by
  cases h with
  | mk hname hinputs hsensors =>
      obtain ⟨is, is', his, his', hitwins⟩ := hinputs
      obtain ⟨ss, ss', hss, hss', hstwins⟩ := hsensors
      have hi := encodeEach_eq (fun _ _ h => ModuleInput.Twin.encode_eq h)
        (fun _ _ h => ModuleInput.Twin.get_encoded_size_eq h) hitwins
      have hs := encodeEach_eq (fun _ _ h => Sensor.Twin.encode_eq h)
        (fun _ _ h => Sensor.Twin.get_encoded_size_eq h) hstwins
      unfold Module.encode
      rw [encode_inputs_eq his.elems, encode_sensors_eq hss.elems, encode_inputs_eq his'.elems,
        encode_sensors_eq hss'.elems, hname.writeName_eq, hi, hs]
      rfl

theorem Twin.eq (h : m.Twin o) (hm : m.Copyable) : o.eq m = some true := by
  cases h with
  | @mk name inputs sensors hname hinputs hsensors =>
      obtain ⟨is, is', his, his', hitwins⟩ := hinputs
      obtain ⟨ss, ss', hss, hss', hstwins⟩ := hsensors
      obtain ⟨is₀, his₀, hicount, -⟩ := hm.inputs
      obtain ⟨ss₀, hss₀, hscount, -⟩ := hm.sensors
      obtain rfl := his.unique his₀
      obtain rfl := hss.unique hss₀
      obtain ⟨chars, hchars, hchars'⟩ := hname.spelled
      rw [hitwins.length_eq] at hicount
      rw [hstwins.length_eq] at hscount
      have hi := eqEach_of_le (.inl his') (.inl his)
        (hitwins.flip.imp fun _ _ h => ModuleInput.Twin.eq h) hicount
      have hs := eqEach_of_le (.inl hss') (.inl hss)
        (hstwins.flip.imp fun _ _ h => Sensor.Twin.eq h) hscount
      have hsame : Module.sameName { m with name, inputs, sensors } m = some true :=
        Module.sameName_eq hchars' hchars
      have hheader : Module.header { m with name, inputs, sensors } = m.header := rfl
      rw [Module.eq, if_pos hheader, hsame]
      simp only [Option.bind_eq_bind, Option.bind_some, ite_true, hs, hi]

-- What a copy keeps.
structure Intact (m : Module) : Prop where
  copyable : m.Copyable
  names : ∀ name ∈ m.owned_names, name.Intact

theorem copy_of_nameCopied {name : Option Bytes} {inputs : SArray ModuleInput}
    {sensors : SArray Sensor} (hne : m.owns_name = true → m.name ≠ none)
    (hname : NameCopied m.owns_name m.name_length m.name name)
    (hinputs : m.inputs.copy ModuleInput.copy = some inputs)
    (hsensors : m.sensors.copy Sensor.copy = some sensors) :
    m.copy = some { m with name, inputs, sensors } := by
  rw [Module.copy, hinputs, hsensors]
  simp only [Option.bind_eq_bind, Option.bind_some]
  cases hname with
  | shared h =>
      have howns : m.owns_name = false := by
        rcases h with h | h
        · exact h
        · exact Bool.eq_false_of_not_eq_true fun howns => hne howns h
      rw [howns]
      rfl
  | owned howns hsource hcopy =>
      rw [howns, hsource]
      simp only [ite_true, Option.bind_some, hcopy]
      rfl

theorem exists_copy (m : Module) (h : m.Intact) :
    ∃ o, m.copy = some o ∧ m.Twin o ∧ o.Intact := by
  obtain ⟨is, his, -, hispelled⟩ := h.copyable.inputs
  obtain ⟨ss, hss, -, hsspelled⟩ := h.copyable.sensors
  obtain ⟨chars, hchars⟩ := h.copyable.spelled.name
  have hnames := h.names
  rw [owned_names, his.elems, hss.elems, List.forall_mem_append, List.forall_mem_append] at hnames
  obtain ⟨hown, hinames, hsnames⟩ := hnames
  obtain ⟨name, hcopied, htwin, hname⟩ := exists_nameCopied hchars hown
  obtain ⟨is', hicopies, hitwins, hintact⟩ := exists_twins ModuleInput.Twin.trans
    ModuleInput.exists_copy fun v hv => ⟨hispelled v hv, List.forall_mem_flatMap.mp hinames v hv⟩
  obtain ⟨ss', hscopies, hstwins, hsntact⟩ := exists_twins Sensor.Twin.trans
    Sensor.exists_copy fun v hv => ⟨hsspelled v hv, List.forall_mem_flatMap.mp hsnames v hv⟩
  obtain ⟨inputs, hinputs, his'⟩ := his.exists_copy hicopies
  obtain ⟨sensors, hsensors, hss'⟩ := hss.exists_copy hscopies
  have hcopy := copy_of_nameCopied h.copyable.spelled.name_ne hcopied hinputs hsensors
  refine ⟨_, hcopy, .mk htwin ⟨is, is', his, his', hitwins⟩ ⟨ss, ss', hss, hss', hstwins⟩,
    h.copyable.copy hcopy, ?_⟩
  rw [owned_names, his'.elems, hss'.elems, List.forall_mem_append, List.forall_mem_append]
  exact ⟨hname, List.forall_mem_flatMap.mpr fun v hv => (hintact v hv).names,
    List.forall_mem_flatMap.mpr fun v hv => (hsntact v hv).names⟩

end Module

namespace Configuration

variable {c : Configuration} {modules copies : List Module} {array : SArray Module}

theorem encode_modules_eq (h : List.Forall₂ Module.Twin modules copies) :
    encode_modules copies = encode_modules modules := by
  induction h with
  | nil => rfl
  | cons hhead htail ih => rw [encode_modules, encode_modules, hhead.encode_eq, ih]

theorem encode_of_twins (hholds : c.modules.Holds modules) (harray : array.Holds copies)
    (h : List.Forall₂ Module.Twin modules copies) :
    ({ c with modules := array } : Configuration).encode = c.encode := by
  unfold Configuration.encode
  rw [hholds.elems, harray.elems]
  exact congrArg (Encode.andThen _) (encode_modules_eq h)

theorem eq_of_twins (hmodules : ∀ m ∈ modules, m.Copyable)
    (h : List.Forall₂ Module.Twin modules copies) :
    List.Forall₂ (fun copy m => Module.eq copy m = some true) copies modules := by
  induction h with
  | nil => exact .nil
  | cons hhead htail ih =>
      rw [List.forall_mem_cons] at hmodules
      exact .cons (hhead.eq hmodules.1) (ih hmodules.2)

-- What an array of copies makes of a configuration.
structure Renews (c : Configuration) (array : SArray Module) : Prop where
  encode_eq : ({ c with modules := array } : Configuration).encode = c.encode
  eq : ({ c with modules := array } : Configuration).eq c = some true
  names : Renewed c.owned_names ({ c with modules := array } : Configuration).owned_names

-- A copy of intact names says the same as the original.
theorem Copyable.exists_copies (hc : c.Copyable) (hnames : ∀ name ∈ c.owned_names, name.Intact) :
    ∃ modules copies, c.modules.Holds modules ∧
      List.Forall₂ (fun m copy => (m.copy >>= Module.copy) = some copy) modules copies ∧
      ∀ array : SArray Module, array.Holds copies → c.Renews array := by
  obtain ⟨modules, hholds, hcount, hmodules⟩ := hc
  rw [owned_names, hholds.elems] at hnames
  obtain ⟨copies, hcopies, htwins, -⟩ := exists_twins Module.Twin.trans Module.exists_copy
    fun m hm => ⟨hmodules m hm, List.forall_mem_flatMap.mp hnames m hm⟩
  refine ⟨modules, copies, hholds, hcopies, fun array harray => ⟨?_, ?_, ?_⟩⟩
  · exact encode_of_twins hholds harray htwins
  · rw [htwins.length_eq] at hcount
    exact (if_pos rfl).trans
      (eqEach_of_le (.inl harray) (.inl hholds) (eq_of_twins hmodules htwins) hcount)
  · rw [owned_names, owned_names, hholds.elems, harray.elems]
    exact renewed_copies Module.renewed_copy hcopies

theorem Renews.preserves (h : c.Renews array) (hnone : c.owned_names = []) :
    c.Preserves { c with modules := array } := by
  refine ⟨h.encode_eq, h.eq, ?_⟩
  have hnames := h.names
  rw [hnone] at hnames
  rw [List.forall₂_nil_left_iff.mp hnames]
  simp

end Configuration

namespace Configurations

variable {ι : Type} [DecidableEq ι] {u : Configurations ι}

-- Copies of the object into a new one, and into any of the others.
def Copies (s : Configurations ι) (i : ι) : Prop :=
  (∃ copy, (s i).copy = some copy ∧ (s i).Preserves copy) ∧
    ∀ j, j ≠ i → ∃ copy, (s j).assign (s i) = some copy ∧ (s i).Preserves copy

-- Copies are as good as their originals exactly where there is no name to be copied.
theorem copies_iff [Heap] (modules_alloc : ι → UInt8) {trace : List (ConfigurationEvent ι)}
    (hrun : Run step Unmoved (fun i => .empty (modules_alloc i)) trace u) (i : ι) :
    u.Copies i ↔ (u i).owned_names = [] := by
  have hcopyable := copyable_run modules_alloc hrun
  constructor
  · rintro ⟨⟨copy, hcopy, hpreserves⟩, -⟩
    by_contra hnames
    exact (Configuration.renewed_copy hcopy).not_terminated hnames hpreserves.names
  · intro hnone
    obtain ⟨modules, copies, hholds, hcopies, hrenews⟩ :=
      (hcopyable i).exists_copies (by simp [hnone])
    refine ⟨?_, fun j _ => ?_⟩
    · obtain ⟨array, harray, hcopied⟩ := hholds.exists_copy hcopies
      refine ⟨{ u i with modules := array }, ?_, (hrenews array hcopied).preserves hnone⟩
      rw [Configuration.copy, harray]
      rfl
    · obtain ⟨old, hold, -, -⟩ := hcopyable j
      obtain ⟨array, harray, hcopied⟩ := hholds.exists_assign hold hcopies
      refine ⟨{ u i with modules := array }, ?_, (hrenews array hcopied).preserves hnone⟩
      rw [Configuration.assign, harray]
      rfl

def declareSteps : List (ConfigurationEvent Bool) :=
  [.add_module false (.declare (some ⟨[100, 114, 105, 118, 101], Configuration.drive_no_nul⟩) 2 0),
    .add_input false 0 (some ⟨[115, 112, 101, 101, 100], Configuration.speed_no_nul⟩) 0 Configuration.speed false,
    .add_module true .none]

theorem declared_copies : ∃ u, Run (@step Bool _ Heap.zeros) Unmoved (fun _ => .empty 1) declareSteps u ∧
    u.Copies false := by
  let _ := Heap.zeros
  obtain ⟨u, hrun, hnone⟩ : ∃ u, Run step Unmoved (fun _ : Bool => .empty 1) declareSteps u ∧
      (u false).owned_names = [] :=
    ⟨_, .cons trivial rfl (.cons trivial rfl (.cons trivial rfl .start)), rfl⟩
  exact ⟨u, hrun, (copies_iff (fun _ => 1) hrun false).mpr hnone⟩

-- A module whose name is an a, a NUL and a b.
def interruptedName : DecodeBuffer := Cursor.ofList [1, 0, 0, 0, 3, 97, 0, 98]

-- The copy of the name is cut at the NUL.
theorem decoded_not_copies : ¬∀ trace u,
    Run (@step Unit _ Heap.zeros) Unmoved (fun _ => .empty 0) trace u → u.Copies () := by
  intro h
  let _ := Heap.zeros
  obtain ⟨u, hrun, hcut⟩ : ∃ u, Run step Unmoved (fun _ : Unit => .empty 0) [.decode () interruptedName] u ∧
      ((u ()).copy.bind fun copy => copy.eq (u ())) = some false :=
    ⟨_, .cons trivial rfl .start, by decide⟩
  obtain ⟨⟨copy, hcopy, hpreserves⟩, -⟩ := h _ u hrun
  rw [hcopy, Option.bind_some, hpreserves.eq] at hcut
  exact absurd hcut (by decide)

end Configurations

end RoboCrisp.Comms
