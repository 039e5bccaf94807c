import RoboCrisp.Comms.Module.Lemmas

namespace RoboCrisp.Comms

open RoboCrisp.Stream RoboCrisp.Util

theorem toNat_succ {count : UInt8} (h : count.toNat < 255) : (count + 1).toNat = count.toNat + 1 := by
  rw [UInt8.toNat_add, UInt8.toNat_one]
  omega

section Numbering

variable {α : Type} {Good : α → Prop} {id : α → Nat} {elements : List α}

-- Every element is found at the index that its id names.
structure InOrder (Good : α → Prop) (id : α → Nat) (elements : List α) : Prop where
  good : ∀ v ∈ elements, Good v
  ids : elements.map id = List.range elements.length

theorem InOrder.nil : InOrder Good id [] :=
  ⟨fun _ h => absurd h List.not_mem_nil, rfl⟩

theorem InOrder.snoc (h : InOrder Good id elements) {v : α} (hgood : Good v)
    (hid : id v = elements.length) : InOrder Good id (elements ++ [v]) := by
  refine ⟨fun w hw => ?_, ?_⟩
  · rcases List.mem_append.mp hw with hw | hw
    · exact h.good w hw
    · rw [List.mem_singleton.mp hw]
      exact hgood
  · rw [List.map_append, h.ids, List.length_append, List.length_singleton, List.range_succ]
    simp [hid]

-- Whatever keeps an element good and its id keeps the whole list in order.
theorem InOrder.of_forall₂ {β : Type} {Good' : β → Prop} {id' : β → Nat} {R : α → β → Prop}
    (h : InOrder Good id elements) {others : List β} (hrel : List.Forall₂ R elements others)
    (hkeep : ∀ v w, Good v → R v w → Good' w ∧ id' w = id v) : InOrder Good' id' others := by
  have hrel' : List.Forall₂ (fun v w => Good' w ∧ id' w = id v) elements others := by
    obtain ⟨hgood, -⟩ := h
    induction hrel with
    | nil => exact .nil
    | @cons v w elements others hhead htail ih =>
        exact .cons (hkeep v w (hgood v (by simp)) hhead)
          (ih fun u hu => hgood u (List.mem_cons_of_mem _ hu))
  have hids : others.map id' = elements.map id := by
    clear h hrel
    induction hrel' with
    | nil => rfl
    | cons hhead htail ih => rw [List.map_cons, List.map_cons, hhead.2, ih]
  refine ⟨fun w hw => ?_, by rw [hids, h.ids, hrel.length_eq]⟩
  obtain ⟨n, hn, rfl⟩ := List.getElem_of_mem hw
  exact (hrel'.get (by rw [hrel'.length_eq]; exact hn) hn).1

theorem InOrder.id_getElem (h : InOrder Good id elements) (n : Nat) (hn : n < elements.length) :
    id elements[n] = n := by
  have hget : (elements.map id)[n]? = some n := by
    rw [h.ids, List.getElem?_range hn]
  simpa [hn] using hget

-- An array in order, with the number of its elements and the next id to give out.
def Numbered (Good : α → Prop) (id : α → Nat) (count next : UInt8) (array : SArray α) : Prop :=
  ∃ elements, array.Holds elements ∧ InOrder Good id elements ∧
    count.toNat = elements.length ∧ next.toNat = elements.length

variable {count next : UInt8} {array : SArray α}

theorem numbered_alloc (capacity : Nat) : Numbered Good id 0 0 (SArray.alloc capacity) :=
  ⟨[], SArray.holds_alloc capacity, .nil, rfl, rfl⟩

theorem numbered_empty : Numbered Good id 0 0 SArray.empty := ⟨[], SArray.holds_empty, .nil, rfl, rfl⟩

-- A new element with the next id.
theorem Numbered.push (h : Numbered Good id count next array) (hsize : array.size < 255) {v : α}
    (hgood : Good v) (hid : id v = next.toNat) :
    ∃ array', array.push v = some array' ∧ Numbered Good id (count + 1) (next + 1) array' := by
  obtain ⟨elements, hholds, horder, hcount, hnext⟩ := h
  obtain ⟨array', hpush, hholds'⟩ := hholds.push v
  rw [hholds.size_eq] at hsize
  refine ⟨array', hpush, _, hholds', horder.snoc hgood (by rw [hid, hnext]), ?_, ?_⟩
  · rw [toNat_succ (by omega), hcount, List.length_append, List.length_singleton]
  · rw [toNat_succ (by omega), hnext, List.length_append, List.length_singleton]

-- A new element that gets the next id only once it is in the array.
theorem Numbered.push_modify (h : Numbered Good id count next array) (hsize : array.size < 255)
    (v : α) (renumber : α → α) (hgood : Good (renumber v)) (hid : id (renumber v) = next.toNat) :
    ∃ pushed array', array.push v = some pushed ∧ pushed.size = array.size + 1 ∧
      pushed.modify array.size renumber = some array' ∧
      Numbered Good id (count + 1) (next + 1) array' := by
  obtain ⟨elements, hholds, horder, hcount, hnext⟩ := h
  obtain ⟨pushed, hpush, hpushed⟩ := hholds.push v
  rw [hholds.size_eq] at hsize ⊢
  obtain ⟨array', hmodify, hholds'⟩ := hpushed.modify (n := elements.length) (by simp) renumber
  have hset : (elements ++ [v]).set elements.length (renumber (elements ++ [v])[elements.length]) =
      elements ++ [renumber v] := by
    rw [List.set_append_right _ _ (Nat.le_refl _)]
    simp
  rw [hset] at hholds'
  refine ⟨pushed, array', hpush, by rw [hpushed.size_eq]; simp, hmodify, _, hholds',
    horder.snoc hgood (by rw [hid, hnext]), ?_, ?_⟩
  · rw [toNat_succ (by omega), hcount, List.length_append, List.length_singleton]
  · rw [toNat_succ (by omega), hnext, List.length_append, List.length_singleton]

-- Another element with the same id in the place of an old one.
theorem Numbered.replace (h : Numbered Good id count next array) {n : Nat} {v w : α}
    {array' : SArray α} (hget : array.get n = some v)
    (hmodify : (array.modify n fun _ => w) = some array') (hkeep : Good v → Good w ∧ id w = id v) :
    Numbered Good id count next array' := by
  obtain ⟨elements, hholds, horder, hcount, hnext⟩ := h
  rw [hholds.get] at hget
  obtain ⟨hn, rfl⟩ := List.getElem?_eq_some_iff.mp hget
  obtain ⟨-, hholds'⟩ := hholds.of_modify hmodify
  obtain ⟨hgood, hid⟩ := hkeep (horder.good _ (List.getElem_mem hn))
  refine ⟨_, hholds', ⟨fun u hu => ?_, ?_⟩, by simpa using hcount, by simpa using hnext⟩
  · rcases List.mem_or_eq_of_mem_set hu with hu | rfl
    · exact horder.good u hu
    · exact hgood
  · rw [SArray.map_set_of_eq hn hid, List.length_set, horder.ids]

theorem Numbered.copy (h : Numbered Good id count next array) {copyElement : α → Option α}
    {array' : SArray α} (hcopy : array.copy copyElement = some array')
    (hkeep : ∀ v w, Good v → copyElement v = some w → Good w ∧ id w = id v) :
    Numbered Good id count next array' := by
  obtain ⟨elements, hholds, horder, hcount, hnext⟩ := h
  obtain ⟨copies, hholds', hrel⟩ := hholds.copy hcopy
  rw [hrel.length_eq] at hcount hnext
  refine ⟨copies, hholds', horder.of_forall₂ hrel ?_, hcount, hnext⟩
  intro v w hv hw
  obtain ⟨middle, hmiddle, hw⟩ := Option.bind_eq_some_iff.mp hw
  obtain ⟨hgood, hid⟩ := hkeep v middle hv hmiddle
  rw [← hid]
  exact hkeep middle w hgood hw

end Numbering

theorem ModuleInput.keep_copy {Declared : DataDeclaration → Prop} (v w : ModuleInput)
    (h : v.toNamedTyped.Plain Declared) (hcopy : v.copy = some w) :
    w.toNamedTyped.Plain Declared ∧ w.input_id.toNat = v.input_id.toNat := by
  obtain ⟨named, hnamed, hplain⟩ := h.copy
  rw [ModuleInput.copy, hnamed] at hcopy
  obtain rfl := Option.some.inj hcopy
  exact ⟨hplain, rfl⟩

theorem Sensor.keep_copy {Declared : DataDeclaration → Prop} (v w : Sensor)
    (h : v.toNamedTyped.Plain Declared) (hcopy : v.copy = some w) :
    w.toNamedTyped.Plain Declared ∧ w.id.toNat = v.id.toNat := by
  obtain ⟨named, hnamed, hplain⟩ := h.copy
  rw [Sensor.copy, hnamed] at hcopy
  obtain rfl := Option.some.inj hcopy
  exact ⟨hplain, rfl⟩

namespace Module

variable {Declared : DataDeclaration → Prop} {m : Module}

-- A module whose inputs and sensors are numbered and whose names are C strings.
structure Dense (Declared : DataDeclaration → Prop) (m : Module) : Prop where
  name : ∃ chars, NameIs m.name m.name_length chars ∧ 0 ∉ chars
  inputs : Numbered (fun input => input.toNamedTyped.Plain Declared)
    (fun input => input.input_id.toNat) m.num_inputs m.next_input_id m.inputs
  sensors : Numbered (fun sensor => sensor.toNamedTyped.Plain Declared)
    (fun sensor => sensor.id.toNat) m.num_sensors m.next_sensor_id m.sensors

theorem dense_empty : empty.Dense Declared :=
  ⟨⟨[], nameIs_nil _, List.not_mem_nil⟩, numbered_empty, numbered_empty⟩

theorem dense_declare (name : Option CString) (inputs_capacity sensors_capacity : UInt8) :
    (declare name inputs_capacity sensors_capacity).Dense Declared :=
  ⟨nameIs_ofName name, numbered_alloc _, numbered_alloc _⟩

theorem Dense.with_id (h : m.Dense Declared) (id : UInt8) : ({ m with id } : Module).Dense Declared :=
  ⟨h.name, h.inputs, h.sensors⟩

theorem size_add_input {input : ModuleInput} {m' : Module} (h : m.add_input input = some m') :
    m'.inputs.size = m.inputs.size + 1 ∧ m'.sensors.size = m.sensors.size := by
  obtain ⟨copied, -, h⟩ := Option.bind_eq_some_iff.mp h
  obtain ⟨pushed, hpush, h⟩ := Option.bind_eq_some_iff.mp h
  obtain ⟨back, -, h⟩ := Option.bind_eq_some_iff.mp h
  obtain ⟨inputs, hmodify, h⟩ := Option.bind_eq_some_iff.mp h
  obtain rfl := Option.some.inj h
  exact ⟨by rw [SArray.size_modify hmodify, SArray.size_push hpush], rfl⟩

theorem size_add_sensor {sensor : Sensor} {m' : Module} (h : m.add_sensor sensor = some m') :
    m'.sensors.size = m.sensors.size + 1 ∧ m'.inputs.size = m.inputs.size := by
  obtain ⟨copied, -, h⟩ := Option.bind_eq_some_iff.mp h
  obtain ⟨pushed, hpush, h⟩ := Option.bind_eq_some_iff.mp h
  obtain ⟨last, -, h⟩ := Option.bind_eq_some_iff.mp h
  obtain ⟨sensors, hmodify, h⟩ := Option.bind_eq_some_iff.mp h
  obtain rfl := Option.some.inj h
  exact ⟨by rw [SArray.size_modify hmodify, SArray.size_push hpush], rfl⟩

theorem Dense.add_input (h : m.Dense Declared) {input : ModuleInput} {m' : Module}
    (hinput : input.toNamedTyped.Plain Declared) (hadd : m.add_input input = some m')
    (hlimit : m'.inputs.size ≤ 255) : m'.Dense Declared ∧ m'.id = m.id := by
  rw [(size_add_input hadd).1] at hlimit
  obtain ⟨named, hnamed, hplain⟩ := hinput.copy
  let copied : ModuleInput := { input with toNamedTyped := named }
  have hcopy : input.copy = some copied := by
    rw [ModuleInput.copy, hnamed]
    rfl
  obtain ⟨pushed, array, hpush, hpushed, hmodify, hnumbered⟩ := h.inputs.push_modify hlimit
    copied (fun element => { element with input_id := m.next_input_id }) hplain rfl
  have hresult : m.add_input input = some { m with
      num_inputs := m.num_inputs + 1
      inputs := array
      next_input_id := m.next_input_id + 1 } := by
    simp only [Module.add_input, hcopy, Option.bind_eq_bind, Option.bind_some, hpush, hpushed,
      SArray.indexBefore_succ, hmodify]
    rfl
  obtain rfl := Option.some.inj (hresult.symm.trans hadd)
  exact ⟨⟨h.name, hnumbered, h.sensors⟩, rfl⟩

theorem Dense.add_sensor (h : m.Dense Declared) {sensor : Sensor} {m' : Module}
    (hsensor : sensor.toNamedTyped.Plain Declared) (hadd : m.add_sensor sensor = some m')
    (hlimit : m'.sensors.size ≤ 255) : m'.Dense Declared ∧ m'.id = m.id := by
  rw [(size_add_sensor hadd).1] at hlimit
  obtain ⟨named, hnamed, hplain⟩ := hsensor.copy
  let copied : Sensor := { sensor with toNamedTyped := named }
  have hcopy : sensor.copy = some copied := by
    rw [Sensor.copy, hnamed]
    rfl
  obtain ⟨elements, hholds, -, hcount, -⟩ := h.sensors
  have hnum : (m.num_sensors + 1).toNat = m.sensors.size + 1 := by
    rw [hholds.size_eq] at hlimit ⊢
    rw [toNat_succ (by omega), hcount]
  have hid : (BitVec.ofNat 10 m.next_sensor_id.toNat).toNat = m.next_sensor_id.toNat := by
    have hlt := m.next_sensor_id.toNat_lt
    rw [BitVec.toNat_ofNat, Nat.mod_eq_of_lt (by omega)]
  obtain ⟨pushed, array, hpush, hpushed, hmodify, hnumbered⟩ := h.sensors.push_modify hlimit copied
    (fun element => { element with id := BitVec.ofNat 10 m.next_sensor_id.toNat })
    hplain hid
  have hresult : m.add_sensor sensor = some { m with
      num_sensors := m.num_sensors + 1
      sensors := array
      next_sensor_id := m.next_sensor_id + 1 } := by
    simp only [Module.add_sensor, hcopy, Option.bind_eq_bind, Option.bind_some, hpush, hnum,
      SArray.indexBefore_succ, hmodify]
    rfl
  obtain rfl := Option.some.inj (hresult.symm.trans hadd)
  exact ⟨⟨h.name, h.inputs, hnumbered⟩, rfl⟩

-- What copy construction and copy assignment do with a name.
theorem name_cases {m o : Module} {inputs : SArray ModuleInput} {sensors : SArray Sensor}
    (h : (if o.owns_name then do
        let source ← o.name
        let name ← strncpy source o.name_length.toNat
        return { o with name := some name, inputs, sensors }
      else return { o with inputs, sensors }) = some m) :
    ∃ name, NameCopied o.owns_name o.name_length o.name name ∧ m = { o with name, inputs, sensors } := by
  by_cases howns : o.owns_name = true
  · rw [if_pos howns] at h
    obtain ⟨source, hsource, h⟩ := Option.bind_eq_some_iff.mp h
    obtain ⟨name, hname, h⟩ := Option.bind_eq_some_iff.mp h
    exact ⟨_, .owned howns hsource hname, (Option.some.inj h).symm⟩
  · rw [if_neg howns] at h
    exact ⟨o.name, .shared (.inl (Bool.eq_false_of_not_eq_true howns)), (Option.some.inj h).symm⟩

theorem copy_cases {m' : Module} (h : m.copy = some m') :
    ∃ name inputs sensors, NameCopied m.owns_name m.name_length m.name name ∧
      m.inputs.copy ModuleInput.copy = some inputs ∧ m.sensors.copy Sensor.copy = some sensors ∧
      m' = { m with name, inputs, sensors } := by
  obtain ⟨inputs, hinputs, h⟩ := Option.bind_eq_some_iff.mp h
  obtain ⟨sensors, hsensors, h⟩ := Option.bind_eq_some_iff.mp h
  obtain ⟨name, hname, rfl⟩ := name_cases h
  exact ⟨name, inputs, sensors, hname, hinputs, hsensors, rfl⟩

theorem assign_cases {o m' : Module} (h : m.assign o = some m') :
    ∃ name inputs sensors, NameCopied o.owns_name o.name_length o.name name ∧
      m.inputs.clear.assign ModuleInput.copy o.inputs = some inputs ∧
      m.sensors.clear.assign Sensor.copy o.sensors = some sensors ∧
      m' = { o with name, inputs, sensors } := by
  obtain ⟨inputs, hinputs, h⟩ := Option.bind_eq_some_iff.mp h
  obtain ⟨sensors, hsensors, h⟩ := Option.bind_eq_some_iff.mp h
  obtain ⟨name, hname, rfl⟩ := name_cases h
  exact ⟨name, inputs, sensors, hname, hinputs, hsensors, rfl⟩

theorem Dense.copy (h : m.Dense Declared) {m' : Module} (hcopy : m.copy = some m') :
    m'.Dense Declared ∧ m'.id = m.id := by
  obtain ⟨name, inputs, sensors, hcopied, hinputs, hsensors, rfl⟩ := copy_cases hcopy
  have hi := h.inputs.copy hinputs ModuleInput.keep_copy
  have hs := h.sensors.copy hsensors Sensor.keep_copy
  obtain ⟨chars, hname, hnul⟩ := h.name
  cases hcopied with
  | shared _ => exact ⟨⟨⟨chars, hname, hnul⟩, hi, hs⟩, rfl⟩
  | owned _ hsource hblock =>
      rw [hsource] at hname
      rw [hname.strncpy_eq hnul] at hblock
      obtain rfl := Option.some.inj hblock
      exact ⟨⟨⟨chars, hname.copied, hnul⟩, hi, hs⟩, rfl⟩

end Module

section Represent

variable {α ι : Type} {Rep : α → ι → Prop}

-- The id of the last element is one less than the next id.
theorem Numbered.getLast {Good : α → Prop} {id : α → Nat} {count next : UInt8} {array : SArray α}
    (h : Numbered Good id count next array) {elements : List α} (hholds : array.Holds elements)
    {items : List ι} (hrep : List.Forall₂ Rep elements items) :
    (items = [] ∧ next = 0) ∨
      ∃ item v, items.getLast? = some item ∧ Rep v item ∧ id v + 1 = next.toNat := by
  obtain ⟨elements', hholds', horder, hcount, hnext⟩ := h
  obtain rfl := hholds.unique hholds'
  rw [hrep.length_eq] at hcount
  obtain ⟨rfl, -⟩ | ⟨front, last, v, rfl, -, -, hback, hv⟩ := last_cases hcount hholds hrep
  · obtain rfl := List.forall₂_nil_right_iff.mp hrep
    exact .inl ⟨rfl, UInt8.toNat_inj.mp hnext⟩
  · refine .inr ⟨last, v, List.getLast?_concat, hv, ?_⟩
    have hlength : elements.length = front.length + 1 := by simpa using hrep.length_eq
    have hn : front.length < elements.length := by omega
    have hlast : elements[front.length] = v := by
      rw [SArray.back, hholds.size_eq, hlength, SArray.indexBefore_succ, Option.bind_eq_bind,
        Option.bind_some, hholds.get, List.getElem?_eq_getElem hn] at hback
      exact Option.some.inj hback
    rw [← hlast, horder.id_getElem _ hn, hnext, hlength]

end Represent

namespace Module

variable {Declared : DataDeclaration → Prop} {m : Module}

-- The counters of a dense module are the ones decode restores.
theorem Dense.exists_matches (h : m.Dense DataDeclaration.Sound) :
    ∃ s, m.Matches s := by
  obtain ⟨chars, hname, -⟩ := h.name
  obtain ⟨inputs, hinputs, hiorder, hicount, -⟩ := h.inputs
  obtain ⟨sensors, hsensors, hsorder, hscount, -⟩ := h.sensors
  obtain ⟨iitems, hirep⟩ := exists_forall₂ fun input hinput =>
    ModuleInput.exists_represents (hiorder.good input hinput).exists_represents
  obtain ⟨sitems, hsrep⟩ := exists_forall₂ fun sensor hsensor =>
    Sensor.exists_represents (hsorder.good sensor hsensor).exists_represents
  have hi := h.inputs.getLast hinputs hirep
  have hs := h.sensors.getLast hsensors hsrep
  rw [hirep.length_eq] at hicount
  rw [hsrep.length_eq] at hscount
  refine ⟨⟨m.id, chars, by rw [← hname.1]; exact m.name_length.toNat_lt, iitems,
    by rw [← hicount]; exact m.num_inputs.toNat_lt, sitems,
    by rw [← hscount]; exact m.num_sensors.toNat_lt⟩,
    ⟨rfl, hname, hicount, ⟨inputs, hinputs, hirep⟩, hscount, ⟨sensors, hsensors, hsrep⟩⟩, ?_, ?_⟩
  · unfold nextInputId
    obtain ⟨hnil, hzero⟩ | ⟨item, v, hlast, hv, hnext⟩ := hi
    · simp [hnil, hzero]
    · simp only [hlast]
      apply UInt8.toNat_inj.mp
      have hlt := m.next_input_id.toNat_lt
      rw [hv.input_id_eq] at hnext
      rw [toNat_succ (by omega), hnext]
  · unfold nextSensorId
    obtain ⟨hnil, hzero⟩ | ⟨item, v, hlast, hv, hnext⟩ := hs
    · simp [hnil, hzero]
    · simp only [hlast]
      apply UInt8.toNat_inj.mp
      have hlt := m.next_sensor_id.toNat_lt
      rw [hv.id_eq] at hnext
      rw [UInt8.toNat_ofNat', hnext, Nat.mod_eq_of_lt hlt]

end Module

end RoboCrisp.Comms
