import RoboCrisp.Comms.Configuration.RoundTrip

namespace RoboCrisp.Comms

open RoboCrisp.Stream RoboCrisp.Util

-- What has been encoded once has bounds that lie inside their slots.

theorem Encode.andThen_eq_some {first second : Encode} {sink last : MemoryEncodeBuffer}
    (h : first.andThen second sink = some (.SUCCESS, last)) :
    ∃ middle, first sink = some (.SUCCESS, middle) ∧ second middle = some (.SUCCESS, last) := by
  obtain ⟨r, middle, hfirst, h⟩ := bind_eq_some_iff.mp h
  by_cases hr : r = .SUCCESS
  · rw [hr] at hfirst h
    exact ⟨middle, hfirst, h⟩
  · rw [if_pos hr] at h
    exact absurd (Prod.mk.inj (pure_eq_some_iff.mp h)).1 hr

theorem Encode.andThen_none {first second : Encode} {sink : MemoryEncodeBuffer}
    (h : first sink = none) : first.andThen second sink = none := by
  rw [Encode.andThen, bind_apply, h]
  rfl

theorem Encode.andThen_success {first second : Encode} {sink middle : MemoryEncodeBuffer}
    (h : first sink = some (.SUCCESS, middle)) : first.andThen second sink = second middle := by
  rw [Encode.andThen, bind_apply, h]
  rfl

namespace DataDeclaration

variable {obj : DataDeclaration}

theorem encode_bound_none (slot : Slot) {width : Nat} (h : 16 < width) (sink : MemoryEncodeBuffer) :
    encode_bound true slot width sink = none := by
  have hload : load slot.bytes width = none := by
    rw [load, if_neg (by rw [slot.length_eq]; omega)]
  simp only [encode_bound, ite_true, hload]
  rfl

theorem sound_of_encode_tail {sink : MemoryEncodeBuffer} {result : EncodeResult × MemoryEncodeBuffer}
    (h : obj.encode_tail sink = some result) : obj.Sound := by
  intro hpresent
  by_contra hwidth
  have hnone := fun slot => encode_bound_none slot (Nat.lt_of_not_le hwidth)
  have hskip : ∀ slot sink, encode_bound false slot obj.width.toNat sink = some (.SUCCESS, sink) :=
    fun _ _ => rfl
  have htail : obj.encode_tail sink = none := by
    unfold encode_tail
    -- the first bound that is announced is the one that fails
    cases hneutral : obj.has_neutral_value with
    | true => exact Encode.andThen_none (hnone _ sink)
    | false =>
        rw [Encode.andThen_success (hskip _ sink)]
        cases hminimum : obj.has_minimum_value with
        | true => exact Encode.andThen_none (hnone _ sink)
        | false =>
            rw [Encode.andThen_success (hskip _ sink)]
            cases hmaximum : obj.has_maximum_value with
            | true => exact hnone _ sink
            | false => simp [hneutral, hminimum, hmaximum] at hpresent
  rw [htail] at h
  exact absurd h (by simp)

end DataDeclaration

theorem NamedTyped.sound_of_encode {obj : NamedTyped} {size : Nat} {header : Bytes}
    {sink last : MemoryEncodeBuffer} (h : obj.encode size header sink = some (.SUCCESS, last)) :
    obj.data_type.Sound := by
  obtain ⟨buf, middle, hget, h⟩ := bind_eq_some_iff.mp h
  by_cases hroom : buf.length - buf.offset < size
  · rw [if_pos hroom] at h
    exact absurd (Prod.mk.inj (pure_eq_some_iff.mp h)).1 (by decide)
  · rw [if_neg hroom] at h
    obtain ⟨_, _, -, h⟩ := bind_eq_some_iff.mp h
    obtain ⟨_, _, htail, -⟩ := bind_eq_some_iff.mp h
    exact DataDeclaration.sound_of_encode_tail htail

theorem encodeEach_mem {α : Type} {encode : α → Encode} {get_encoded_size : α → Nat}
    {elements : List α} {sink last : MemoryEncodeBuffer}
    (h : encodeEach encode get_encoded_size elements sink = some (.SUCCESS, last)) :
    ∀ element ∈ elements, ∃ sink last, encode element sink = some (.SUCCESS, last) := by
  induction elements generalizing sink with
  | nil => exact fun element helement => absurd helement List.not_mem_nil
  | cons first elements ih =>
      obtain ⟨pre, sink, -, h⟩ := bind_eq_some_iff.mp h
      obtain ⟨r, middle, hfirst, h⟩ := bind_eq_some_iff.mp h
      by_cases hr : r = .SUCCESS
      · subst hr
        obtain ⟨post, middle', -, h⟩ := bind_eq_some_iff.mp h
        by_cases hsize : post.offset - pre.offset = get_encoded_size first
        · rw [if_pos hsize] at h
          intro element helement
          rcases List.mem_cons.mp helement with rfl | helement
          · exact ⟨_, _, hfirst⟩
          · exact ih h element helement
        · rw [if_neg hsize] at h
          exact absurd (lift_eq_some_iff.mp h).1 (by simp)
      · rw [if_pos hr] at h
        exact absurd (Prod.mk.inj (pure_eq_some_iff.mp h)).1 hr

theorem Numbered.strengthen {α : Type} {Good Good' : α → Prop} {id : α → Nat} {count next : UInt8}
    {array : SArray α} (h : Numbered Good id count next array)
    (hgood : ∀ elements, array.elems = some elements → count.toNat = elements.length →
      ∀ v ∈ elements, Good v → Good' v) : Numbered Good' id count next array := by
  obtain ⟨elements, hholds, horder, hcount, hnext⟩ := h
  exact ⟨elements, hholds, ⟨fun v hv => hgood elements hholds.elems hcount v hv (horder.good v hv),
    horder.ids⟩, hcount, hnext⟩

-- A counter that is not 0 when there are elements.
theorem pos_of_mem {α : Type} {count : UInt8} {elements : List α} {v : α}
    (hcount : count.toNat = elements.length) (hv : v ∈ elements) : count > 0 := by
  change 0 < count.toNat
  rw [hcount]
  exact List.length_pos_of_mem hv

theorem Module.Dense.sound_of_encode {Declared : DataDeclaration → Prop} {m : Module}
    (h : m.Dense Declared) {sink last : MemoryEncodeBuffer}
    (hencode : m.encode sink = some (.SUCCESS, last)) : m.Dense DataDeclaration.Sound := by
  obtain ⟨_, _, -, hencode⟩ := bind_eq_some_iff.mp hencode
  obtain ⟨_, _, -, hencode⟩ := bind_eq_some_iff.mp hencode
  obtain ⟨_, hinputs, hsensors⟩ := Encode.andThen_eq_some hencode
  refine ⟨h.name, h.inputs.strengthen fun elements helems hcount input hinput hplain => ?_,
    h.sensors.strengthen fun elements helems hcount sensor hsensor hplain => ?_⟩
  · rw [Module.encode_inputs, if_pos (pos_of_mem hcount hinput), helems] at hinputs
    obtain ⟨_, _, hencode⟩ := encodeEach_mem hinputs input hinput
    exact ⟨NamedTyped.sound_of_encode hencode, hplain.name⟩
  · rw [Module.encode_sensors, if_pos (pos_of_mem hcount hsensor), helems] at hsensors
    obtain ⟨_, _, hencode⟩ := encodeEach_mem hsensors sensor hsensor
    exact ⟨NamedTyped.sound_of_encode hencode, hplain.name⟩

namespace Configuration

theorem encode_modules_mem {modules : List Module} {sink last : MemoryEncodeBuffer}
    (h : encode_modules modules sink = some (.SUCCESS, last)) :
    ∀ m ∈ modules, ∃ sink last, m.encode sink = some (.SUCCESS, last) := by
  induction modules generalizing sink with
  | nil => exact fun m hm => absurd hm List.not_mem_nil
  | cons first modules ih =>
      obtain ⟨middle, hfirst, hrest⟩ := Encode.andThen_eq_some h
      intro m hm
      rcases List.mem_cons.mp hm with rfl | hm
      · exact ⟨_, _, hfirst⟩
      · exact ih hrest m hm

theorem modules_of_encode {c : Configuration} {modules : List Module}
    (helems : c.modules.elems = some modules) {sink last : MemoryEncodeBuffer}
    (h : c.encode sink = some (.SUCCESS, last)) :
    ∀ m ∈ modules, ∃ sink last, m.encode sink = some (.SUCCESS, last) := by
  obtain ⟨_, -, h⟩ := Encode.andThen_eq_some h
  rw [helems] at h
  exact encode_modules_mem h

end Configuration

end RoboCrisp.Comms
