import RoboCrisp.Comms.Configuration.Build
import RoboCrisp.Transition.Run

namespace RoboCrisp.Comms

open RoboCrisp.Stream RoboCrisp.Util RoboCrisp.Transition

section Counts

variable {α : Type} {count : UInt8} {array array' : SArray α} {elements : List α} {v : α}

-- The counter is the number of elements that the array really has.
structure Counts (count : UInt8) (array : SArray α) : Prop where
  count_eq : count.toNat = array.size
  elems_ne : array.elems ≠ none

theorem Counts.exists_elems (h : Counts count array) :
    ∃ elements, array.elems = some elements ∧ count.toNat = elements.length := by
  obtain ⟨elements, helems⟩ := Option.ne_none_iff_exists'.mp h.elems_ne
  exact ⟨elements, helems, h.count_eq.trans (SArray.get_of_elems helems).1⟩

-- The invariant. A moved-from array without elements is good enough.
structure Tallies (count : UInt8) (elements : List α) (array : SArray α) : Prop where
  contains : array.Contains elements
  count_eq : count.toNat = elements.length

theorem Tallies.counts (h : Tallies count elements array) : Counts count array where
  count_eq := by rw [h.count_eq, h.contains.size_eq]
  elems_ne := by simp [h.contains.elems]

theorem tallies_empty : Tallies 0 [] (.empty : SArray α) := ⟨.inl SArray.holds_empty, rfl⟩

theorem tallies_alloc (capacity : Nat) : Tallies 0 [] (.alloc capacity : SArray α) :=
  ⟨.inl (SArray.holds_alloc capacity), rfl⟩

theorem Tallies.clear (h : Tallies count elements array) : Tallies 0 [] array.clear :=
  ⟨h.contains.clear, rfl⟩

theorem Tallies.push (h : Tallies count elements array) (hsize : array.size < 255)
    (hpush : array.push v = some array') : Tallies (count + 1) (elements ++ [v]) array' := by
  rw [h.contains.size_eq, ← h.count_eq] at hsize
  refine ⟨.inl (h.contains.push hpush), ?_⟩
  rw [toNat_succ (by omega), h.count_eq, List.length_append, List.length_singleton]

-- The counter wraps, the size does not.
theorem not_counts_grown (hsize : ¬array.size < 255) (hgrown : array'.size = array.size + 1) :
    ¬Counts (count + 1) array' := by
  intro hcounts
  have hcount := hcounts.count_eq
  have hlt := (count + 1).toNat_lt
  omega

theorem Tallies.of_length {β : Type} {others : List β} {other : SArray β}
    (h : Tallies count elements array) (hother : other.Contains others)
    (hlength : elements.length = others.length) : Tallies count others other :=
  ⟨hother, h.count_eq.trans hlength⟩

theorem Tallies.count_zero (h : Tallies count elements array) (hsize : array.size = 0) :
    count.toNat = 0 := by
  rw [h.count_eq, ← h.contains.size_eq, hsize]

-- What a move leaves of an array, or of an array that is moved into itself.
theorem Tallies.movedFrom (h : Tallies count elements array) (hsize : array.size = 0) :
    Tallies count [] array.movedFrom :=
  ⟨.inr ⟨rfl, rfl, hsize⟩, h.count_zero hsize⟩

theorem Tallies.moveSelf (h : Tallies count elements array) (hsize : array.size = 0) :
    Tallies count [] array.moveSelf :=
  ⟨.inr ⟨rfl, rfl, h.clear.contains.size_eq⟩, h.count_zero hsize⟩

theorem Tallies.assignSelf (h : Tallies count elements array) (hsize : array.size = 0) :
    Tallies count [] array.assignSelf :=
  ⟨h.clear.contains.ensure_capacity _, h.count_zero hsize⟩

theorem not_counts_movedFrom (hsize : array.size ≠ 0) : ¬Counts count array.movedFrom := by
  intro h
  exact h.elems_ne (if_neg hsize)

-- The counter keeps what a clear takes out of the array.
theorem Tallies.not_counts_moveSelf (h : Tallies count elements array) (hsize : array.size ≠ 0) :
    ¬Counts count array.moveSelf := by
  intro hcounts
  have hcount : count.toNat = array.clear.size := hcounts.count_eq
  rw [h.count_eq, ← h.contains.size_eq, h.clear.contains.size_eq] at hcount
  exact hsize hcount

theorem Tallies.not_counts_assignSelf (h : Tallies count elements array) (hsize : array.size ≠ 0) :
    ¬Counts count array.assignSelf := by
  intro hcounts
  have hcount : count.toNat = (array.clear.ensure_capacity array.capacity).size := hcounts.count_eq
  rw [h.count_eq, ← h.contains.size_eq, SArray.size_ensure_capacity, h.clear.contains.size_eq]
    at hcount
  exact hsize hcount

-- Only an array with memory can have an element replaced.
theorem contains_modify {n : Nat} {f : α → α} (h : array.Contains elements)
    (hmodify : array.modify n f = some array') :
    ∃ element, elements[n]? = some element ∧ array'.Contains (elements.set n (f element)) := by
  obtain h | ⟨-, hdata, -⟩ := h
  · obtain ⟨hn, hholds⟩ := h.of_modify hmodify
    exact ⟨elements[n], List.getElem?_eq_getElem hn, .inl hholds⟩
  · simp [SArray.modify, hdata] at hmodify

-- A decoder of `count` elements stores just as many, whatever there is to read.
theorem yields_decodeEach {Has : SArray α → List α → Prop} {Good : α → Prop} {decode_copy : Decode α}
    (hcollects : SArray.Collects Has) (hdecode : Decoder.Yields decode_copy Good)
    (harray : Has array []) (count : Nat) :
    Decoder.Yields (Module.decodeEach decode_copy count array) fun out =>
      ∃ elements, Has out elements ∧ count = elements.length ∧ ∀ v ∈ elements, Good v := by
  unfold Module.decodeEach
  split
  · have hturn : ∀ done (array : SArray α),
        (∃ elements, Has array elements ∧ done = elements.length ∧ ∀ v ∈ elements, Good v) →
        Decoder.Yields (do
            let element ← decode_copy
            StateT.lift (array.push element)) fun out =>
          ∃ elements, Has out elements ∧ done + 1 = elements.length ∧ ∀ v ∈ elements, Good v := by
      rintro done array ⟨elements, hhas, hlength, hgood⟩
      refine hdecode.bind fun element helement => ?_
      intro cursor out last hpush
      obtain ⟨hpush, rfl⟩ := lift_eq_some_iff.mp hpush
      exact ⟨_, hcollects.push hhas hpush, by simp [hlength], forall_mem_concat hgood helement⟩
    have hstart : ∃ elements, Has (array.ensure_capacity count) elements ∧ 0 = elements.length ∧
        ∀ v ∈ elements, Good v := ⟨[], hcollects.ensure_capacity count harray, rfl, by simp⟩
    simpa using Decoder.Yields.iterate_turns hturn count hstart
  · rename_i hcount
    exact Decoder.Yields.pure ⟨[], harray, by simpa using hcount, by simp⟩

end Counts

namespace Module

variable {m m' o : Module}

structure Counted (m : Module) : Prop where
  inputs : Counts m.num_inputs m.inputs
  sensors : Counts m.num_sensors m.sensors

structure Filled (m : Module) : Prop where
  inputs : ∃ inputs, Tallies m.num_inputs inputs m.inputs
  sensors : ∃ sensors, Tallies m.num_sensors sensors m.sensors

theorem Filled.counted (h : m.Filled) : m.Counted := by
  obtain ⟨⟨inputs, hinputs⟩, sensors, hsensors⟩ := h
  exact ⟨hinputs.counts, hsensors.counts⟩

theorem filled_empty : empty.Filled := ⟨⟨[], tallies_empty⟩, [], tallies_empty⟩

theorem filled_declare (name : Option CString) (inputs_capacity sensors_capacity : UInt8) :
    (declare name inputs_capacity sensors_capacity).Filled :=
  ⟨⟨[], tallies_alloc _⟩, [], tallies_alloc _⟩

theorem Filled.with_id (h : m.Filled) (id : UInt8) : ({ m with id } : Module).Filled :=
  ⟨h.inputs, h.sensors⟩

theorem Filled.reset (h : m.Filled) : m.reset.Filled := by
  obtain ⟨⟨inputs, hinputs⟩, sensors, hsensors⟩ := h
  exact ⟨⟨[], hinputs.clear⟩, [], hsensors.clear⟩

-- With copied arrays in it, an object has as much as the other one.
theorem Filled.of_arrays (h : o.Filled) {inputs : SArray ModuleInput} {sensors : SArray Sensor}
    {name : Option Bytes}
    (hinputs : ∀ elements, o.inputs.Contains elements →
      ∃ copies, inputs.Contains copies ∧ elements.length = copies.length)
    (hsensors : ∀ elements, o.sensors.Contains elements →
      ∃ copies, sensors.Contains copies ∧ elements.length = copies.length) :
    ({ o with name, inputs, sensors } : Module).Filled := by
  obtain ⟨⟨is, his⟩, ss, hss⟩ := h
  obtain ⟨icopies, hicopies, hilength⟩ := hinputs is his.contains
  obtain ⟨scopies, hscopies, hslength⟩ := hsensors ss hss.contains
  exact ⟨⟨icopies, his.of_length hicopies hilength⟩, scopies, hss.of_length hscopies hslength⟩

theorem Filled.copy (h : m.Filled) (hcopy : m.copy = some m') : m'.Filled := by
  obtain ⟨name, inputs, sensors, -, hinputs, hsensors, rfl⟩ := copy_cases hcopy
  refine h.of_arrays (fun elements hcontains => ?_) fun elements hcontains => ?_
  · obtain ⟨copies, hcopies, hrel⟩ := hcontains.copy hinputs
    exact ⟨copies, hcopies, hrel.length_eq⟩
  · obtain ⟨copies, hcopies, hrel⟩ := hcontains.copy hsensors
    exact ⟨copies, hcopies, hrel.length_eq⟩

theorem Filled.assign (h : m.Filled) (ho : o.Filled) (hassign : m.assign o = some m') : m'.Filled := by
  obtain ⟨⟨is, his⟩, ss, hss⟩ := h
  obtain ⟨name, inputs, sensors, -, hinputs, hsensors, rfl⟩ := assign_cases hassign
  refine ho.of_arrays (fun elements hcontains => ?_) fun elements hcontains => ?_
  · obtain ⟨copies, hcopies, hrel⟩ := hcontains.assign his.clear.contains hinputs
    exact ⟨copies, hcopies, hrel.length_eq⟩
  · obtain ⟨copies, hcopies, hrel⟩ := hcontains.assign hss.clear.contains hsensors
    exact ⟨copies, hcopies, hrel.length_eq⟩

-- The counters and the elements are gone by the time an object copies itself.
theorem Filled.assignSelf (h : m.Filled) : m.assignSelf.Filled := by
  obtain ⟨⟨is, his⟩, ss, hss⟩ := h
  exact ⟨⟨[], his.clear.assignSelf his.clear.contains.size_eq⟩, [],
    hss.clear.assignSelf hss.clear.contains.size_eq⟩

theorem Filled.movedFrom (h : m.Filled) (hinputs : m.inputs.size = 0) (hsensors : m.sensors.size = 0) :
    m.movedFrom.Filled := by
  obtain ⟨⟨is, his⟩, ss, hss⟩ := h
  exact ⟨⟨[], his.movedFrom hinputs⟩, [], hss.movedFrom hsensors⟩

theorem Filled.moveSelf (h : m.Filled) (hinputs : m.inputs.size = 0) (hsensors : m.sensors.size = 0) :
    m.moveSelf.Filled := by
  obtain ⟨⟨is, his⟩, ss, hss⟩ := h
  exact ⟨⟨[], his.moveSelf hinputs⟩, [], hss.moveSelf hsensors⟩

theorem not_counted_movedFrom (h : ¬(m.inputs.size = 0 ∧ m.sensors.size = 0)) :
    ¬m.movedFrom.Counted := by
  intro hcounted
  by_cases hinputs : m.inputs.size = 0
  · exact not_counts_movedFrom (fun hsensors => h ⟨hinputs, hsensors⟩) hcounted.sensors
  · exact not_counts_movedFrom hinputs hcounted.inputs

theorem Filled.not_counted_moveSelf (hm : m.Filled) (h : ¬(m.inputs.size = 0 ∧ m.sensors.size = 0)) :
    ¬m.moveSelf.Counted := by
  obtain ⟨⟨is, his⟩, ss, hss⟩ := hm
  intro hcounted
  by_cases hinputs : m.inputs.size = 0
  · exact hss.not_counts_moveSelf (fun hsensors => h ⟨hinputs, hsensors⟩) hcounted.sensors
  · exact his.not_counts_moveSelf hinputs hcounted.inputs

theorem add_input_eq {input : ModuleInput} (hadd : m.add_input input = some m') :
    ∃ copied pushed inputs back f, m.inputs.push copied = some pushed ∧
      pushed.modify back f = some inputs ∧
      m' = { m with
        num_inputs := m.num_inputs + 1
        inputs
        next_input_id := m.next_input_id + 1 } := by
  obtain ⟨copied, -, hadd⟩ := Option.bind_eq_some_iff.mp hadd
  obtain ⟨pushed, hpush, hadd⟩ := Option.bind_eq_some_iff.mp hadd
  obtain ⟨back, -, hadd⟩ := Option.bind_eq_some_iff.mp hadd
  obtain ⟨inputs, hmodify, hadd⟩ := Option.bind_eq_some_iff.mp hadd
  exact ⟨copied, pushed, inputs, back, _, hpush, hmodify, (Option.some.inj hadd).symm⟩

theorem Filled.add_input (h : m.Filled) {input : ModuleInput} (hsize : m.inputs.size < 255)
    (hadd : m.add_input input = some m') : m'.Filled := by
  obtain ⟨⟨is, his⟩, hsensors⟩ := h
  obtain ⟨copied, pushed, inputs, back, f, hpush, hmodify, rfl⟩ := add_input_eq hadd
  have hpushed := his.push hsize hpush
  obtain ⟨element, -, hcontains⟩ := contains_modify hpushed.contains hmodify
  exact ⟨⟨_, hpushed.of_length hcontains (by simp)⟩, hsensors⟩

theorem not_counted_add_input {input : ModuleInput} (hsize : ¬m.inputs.size < 255)
    (hadd : m.add_input input = some m') : ¬m'.Counted := by
  have hgrown := (size_add_input hadd).1
  obtain ⟨copied, pushed, inputs, back, f, -, -, rfl⟩ := add_input_eq hadd
  exact fun hcounted => not_counts_grown hsize hgrown hcounted.inputs

-- The counter has no index to give for the sensor that makes it wrap.
theorem Filled.add_sensor (h : m.Filled) {sensor : Sensor} (hadd : m.add_sensor sensor = some m') :
    m.sensors.size < 255 ∧ m'.Filled := by
  obtain ⟨hinputs, ss, hss⟩ := h
  obtain ⟨copied, -, hadd⟩ := Option.bind_eq_some_iff.mp hadd
  obtain ⟨pushed, hpush, hadd⟩ := Option.bind_eq_some_iff.mp hadd
  obtain ⟨last, hlast, hadd⟩ := Option.bind_eq_some_iff.mp hadd
  obtain ⟨sensors, hmodify, hadd⟩ := Option.bind_eq_some_iff.mp hadd
  obtain rfl := Option.some.inj hadd
  have hsize : m.sensors.size < 255 := by
    by_contra hfull
    have hcount : m.num_sensors.toNat = 255 := by
      have hlt := m.num_sensors.toNat_lt
      rw [hss.contains.size_eq, ← hss.count_eq] at hfull
      omega
    have hwrapped : m.num_sensors + 1 = 0 := by
      apply UInt8.toNat_inj.mp
      rw [UInt8.toNat_add, hcount]
      rfl
    rw [hwrapped] at hlast
    exact absurd hlast (by simp [SArray.indexBefore])
  have hpushed := hss.push hsize hpush
  obtain ⟨element, -, hcontains⟩ := contains_modify hpushed.contains hmodify
  exact ⟨hsize, hinputs, _, hpushed.of_length hcontains (by simp)⟩

-- A name that is there as far as its length goes. One that is owned is there in any case.
structure Spelled (m : Module) : Prop where
  name : ∃ chars, NameIs m.name m.name_length chars
  name_ne : m.owns_name = true → m.name ≠ none

-- What a decoder of a module leaves.
structure Stored (HasInputs : SArray ModuleInput → List ModuleInput → Prop)
    (HasSensors : SArray Sensor → List Sensor → Prop) (GoodInput : ModuleInput → Prop)
    (GoodSensor : Sensor → Prop) (m : Module) : Prop where
  spelled : m.Spelled
  inputs : ∃ inputs, HasInputs m.inputs inputs ∧ m.num_inputs.toNat = inputs.length ∧
    ∀ v ∈ inputs, GoodInput v
  sensors : ∃ sensors, HasSensors m.sensors sensors ∧ m.num_sensors.toNat = sensors.length ∧
    ∀ v ∈ sensors, GoodSensor v

section Decode

variable {HasInputs : SArray ModuleInput → List ModuleInput → Prop}
  {HasSensors : SArray Sensor → List Sensor → Prop} {GoodInput : ModuleInput → Prop}
  {GoodSensor : Sensor → Prop}

theorem Stored.restore_input_id (h : m.Stored HasInputs HasSensors GoodInput GoodSensor)
    (hrestore : m.restore_input_id = some m') : m'.Stored HasInputs HasSensors GoodInput GoodSensor := by
  unfold Module.restore_input_id at hrestore
  split at hrestore
  · obtain ⟨back, -, hrestore⟩ := Option.bind_eq_some_iff.mp hrestore
    obtain rfl := Option.some.inj hrestore
    exact ⟨⟨h.spelled.name, h.spelled.name_ne⟩, h.inputs, h.sensors⟩
  · obtain rfl := Option.some.inj hrestore
    exact h

theorem Stored.restore_sensor_id (h : m.Stored HasInputs HasSensors GoodInput GoodSensor)
    (hrestore : m.restore_sensor_id = some m') :
    m'.Stored HasInputs HasSensors GoodInput GoodSensor := by
  unfold Module.restore_sensor_id at hrestore
  split at hrestore
  · obtain ⟨back, -, hrestore⟩ := Option.bind_eq_some_iff.mp hrestore
    obtain rfl := Option.some.inj hrestore
    exact ⟨⟨h.spelled.name, h.spelled.name_ne⟩, h.inputs, h.sensors⟩
  · obtain rfl := Option.some.inj hrestore
    exact h

variable [Heap]

theorem yields_decode_name (m : Module) :
    Decoder.Yields m.decode_name fun out => out.Spelled ∧ out.inputs = m.inputs ∧
      out.sensors = m.sensors := by
  unfold decode_name
  split
  · refine (yields_decodeName m.name_length).bind fun name hname => ?_
    exact Decoder.Yields.pure ⟨⟨hname, fun _ => by simp⟩, rfl, rfl⟩
  · rename_i hzero
    have hlength : m.name_length = 0 := by
      apply UInt8.toNat_inj.mp
      exact Nat.le_zero.mp (Nat.le_of_not_lt hzero)
    exact Decoder.Yields.pure ⟨⟨⟨[], hlength ▸ nameIs_nil none⟩, by simp⟩, rfl, rfl⟩

-- The loops run as often as the counters that have been read say.
theorem yields_stored (hinputs : SArray.Collects HasInputs) (hsensors : SArray.Collects HasSensors)
    (hinput : Decoder.Yields ModuleInput.decode_copy GoodInput)
    (hsensor : Decoder.Yields Sensor.decode_copy GoodSensor)
    (hi : HasInputs m.inputs.clear []) (hs : HasSensors m.sensors.clear []) :
    Decoder.Yields m.decode fun out => out.1 = .SUCCESS ∧
      out.2.Stored HasInputs HasSensors GoodInput GoodSensor := by
  have hheader : ∀ bytes, (m.reset.withHeader bytes).inputs = m.inputs.clear ∧
      (m.reset.withHeader bytes).sensors = m.sensors.clear := by
    intro bytes
    unfold withHeader
    split <;> exact ⟨rfl, rfl⟩
  unfold Module.decode
  refine Decoder.Yields.bind_any fun header => ?_
  refine (yields_decode_name _).bind ?_
  rintro named ⟨hspelled, hnamedi, hnameds⟩
  have harrays : named.inputs = m.inputs.clear ∧ named.sensors = m.sensors.clear := by
    rw [hnamedi, hnameds]
    cases header with
    | none => exact ⟨rfl, rfl⟩
    | some bytes => exact hheader bytes
  refine (yields_decodeEach hinputs hinput (harrays.1 ▸ hi) _).bind ?_
  rintro inputs ⟨is, his, hicount, higood⟩
  refine (yields_decodeEach hsensors hsensor (harrays.2 ▸ hs) _).bind ?_
  rintro sensors ⟨ss, hss, hscount, hsgood⟩
  have hstored : ({ named with inputs, sensors } : Module).Stored HasInputs HasSensors GoodInput
      GoodSensor :=
    ⟨⟨hspelled.name, hspelled.name_ne⟩, ⟨is, his, hicount, higood⟩, ss, hss, hscount, hsgood⟩
  intro cursor out last hrun
  obtain ⟨numbered, _, hinputid, hrun⟩ := bind_eq_some_iff.mp hrun
  obtain ⟨restored, _, hsensorid, hrun⟩ := bind_eq_some_iff.mp hrun
  obtain ⟨rfl, -⟩ := Prod.mk.inj (pure_eq_some_iff.mp hrun)
  have hnumbered := hstored.restore_input_id (lift_eq_some_iff.mp hinputid).1
  exact ⟨rfl, hnumbered.restore_sensor_id (lift_eq_some_iff.mp hsensorid).1⟩

theorem Filled.yields_decode (h : m.Filled) :
    Decoder.Yields m.decode fun out => out.1 = .SUCCESS ∧ out.2.Filled := by
  obtain ⟨⟨is, his⟩, ss, hss⟩ := h
  intro cursor out last hrun
  obtain ⟨hr, hstored⟩ := yields_stored SArray.collects_contains SArray.collects_contains
    (Decoder.Yields.any fun _ => trivial : Decoder.Yields _ fun _ => True)
    (Decoder.Yields.any fun _ => trivial : Decoder.Yields _ fun _ => True) his.clear.contains
    hss.clear.contains cursor out last hrun
  obtain ⟨is', his', hicount, -⟩ := hstored.inputs
  obtain ⟨ss', hss', hscount, -⟩ := hstored.sensors
  exact ⟨hr, ⟨is', his', hicount⟩, ss', hss', hscount⟩

end Decode

end Module

end RoboCrisp.Comms
