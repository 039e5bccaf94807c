import RoboCrisp.Comms.Layout

namespace RoboCrisp.Comms

open RoboCrisp.Stream RoboCrisp.Util

-- The decoder comes to an end where the layout does, as long as no bound that it meets runs past
-- its slot.
def Tracks {α : Type} (decoder : Decode α) (layout : Bytes → Layout) (post : α → Prop) : Prop :=
  ∀ cursor : DecodeBuffer, (∀ obj ∈ (layout cursor.rest).declarations, obj.Sound) →
    ∃ value cursor', decoder cursor = some (value, cursor') ∧
      cursor'.rest = (layout cursor.rest).rest ∧ post value

namespace Tracks

variable {α β : Type} {decoder : Decode α} {next : α → Decode β} {layout layout' : Bytes → Layout}
  {middle : α → Prop} {post : β → Prop}

theorem pure {value : β} (h : post value) : Tracks (Pure.pure value) Layout.done post :=
  fun cursor _ => ⟨value, cursor, rfl, rfl, h⟩

theorem bind (hfirst : Tracks decoder layout middle)
    (hnext : ∀ value, middle value → Tracks (next value) layout' post) :
    Tracks (decoder >>= next) (fun data => (layout data).andThen layout') post := by
  intro cursor hsound
  obtain ⟨value, between, hrun, hrest, hvalue⟩ := hfirst cursor fun obj hobj =>
    hsound obj (List.mem_append_left _ hobj)
  obtain ⟨result, last, hrun', hrest', hresult⟩ := hnext value hvalue between fun obj hobj =>
    hsound obj (List.mem_append_right _ (hrest ▸ hobj))
  refine ⟨result, last, bind_eq_some_iff.mpr ⟨value, between, hrun, hrun'⟩, ?_, hresult⟩
  rw [hrest', hrest]
  rfl

-- Nothing is read any more.
theorem bind_last (hfirst : Tracks decoder layout middle)
    (hnext : ∀ value, middle value → Tracks (next value) Layout.done post) :
    Tracks (decoder >>= next) layout post := by
  have h := bind hfirst hnext
  simp only [Layout.andThen_done] at h
  exact h

theorem lift {value : Option β} {result : β} (h : value = some result) :
    Tracks (StateT.lift value) Layout.done (· = result) := by
  subst h
  exact fun cursor _ => ⟨result, cursor, rfl, rfl, rfl⟩

-- It does not matter here whether all the bytes were there.
theorem congr (h : Tracks decoder layout middle)
    (hsame : ∀ data, (layout data).declarations = (layout' data).declarations ∧
      (layout data).rest = (layout' data).rest) : Tracks decoder layout' middle := by
  intro cursor hsound
  obtain ⟨hdeclarations, hrest⟩ := hsame cursor.rest
  rw [← hdeclarations] at hsound
  rw [← hrest]
  exact h cursor hsound

-- A header that is there, or is not.
theorem header {size : Nat} {next : Option Bytes → Decode β} {layout : Bytes → Bytes → Layout}
    {missing : Bytes → Layout} (hthere : ∀ bytes, Tracks (next (some bytes)) (layout bytes) post)
    (hmissing : Tracks (next none) missing post) :
    Tracks (read size >>= next) (fun data =>
      if size ≤ data.length then layout (data.take size) (data.drop size) else missing data) post := by
  intro cursor hsound
  rw [bind_apply]
  show ∃ value cursor', (some (cursor.read size)).bind _ = some (value, cursor') ∧ _
  rw [Option.bind_some, Cursor.read, Cursor.length_sub_offset]
  by_cases hsize : size ≤ cursor.rest.length
  · simp only [if_pos hsize] at hsound ⊢
    rw [if_neg (by omega)]
    exact hthere _ (cursor.advance size) hsound
  · simp only [if_neg hsize] at hsound ⊢
    rw [if_pos (by omega)]
    exact hmissing cursor hsound

theorem congr_post {post' : β → Prop} {decoder : Decode β} (h : Tracks decoder layout post)
    (hpost : ∀ value, post value → post' value) : Tracks decoder layout post' := by
  intro cursor hsound
  obtain ⟨value, cursor', hrun, hrest, hvalue⟩ := h cursor hsound
  exact ⟨value, cursor', hrun, hrest, hpost value hvalue⟩

theorem behind {size : Nat} {next : Option Bytes → Decode β} {layout : Bytes → Bytes → Layout}
    (hthere : ∀ bytes, Tracks (next (some bytes)) (layout bytes) post)
    (hmissing : Tracks (next none) Layout.done post) :
    Tracks (read size >>= next) (Layout.behind size layout) post := by
  refine (header hthere hmissing).congr fun data => ?_
  rw [Layout.behind]
  split
  · exact ⟨rfl, rfl⟩
  · exact ⟨rfl, rfl⟩

theorem iterate {body : α → Decode α} (hbody : ∀ state, middle state → Tracks (body state) layout middle)
    (count : Nat) {state : α} (h : middle state) :
    Tracks (Decoder.iterate body count state) (Layout.times layout count) middle := by
  induction count generalizing state with
  | zero => exact pure h
  | succ count ih => exact bind (hbody state h) fun state' h' => ih h'

end Tracks

section Declarations

theorem exists_decode_bound {present : Bool} {width : Nat} (slot : Slot) (cursor : DecodeBuffer)
    (hsound : present = true → width ≤ 16) (hroom : width * present.toNat ≤ cursor.rest.length) :
    ∃ slot', DataDeclaration.decode_bound present width .SUCCESS slot cursor =
      some ((.SUCCESS, slot'), cursor.advance (width * present.toNat)) := by
  cases present with
  | false =>
      rw [Bool.toNat_false, Nat.mul_zero, Cursor.advance_zero]
      exact ⟨slot, rfl⟩
  | true =>
      rw [Bool.toNat_true, Nat.mul_one] at hroom ⊢
      have hlength : (cursor.rest.take width).length = width := List.length_take_of_le hroom
      obtain ⟨slot', hstore, -⟩ := slot.store_of_le (hlength.le.trans (hsound rfl))
      refine ⟨slot', ?_⟩
      rw [DataDeclaration.decode_bound, if_pos ⟨rfl, rfl⟩, bind_apply]
      show (some (cursor.read width)).bind _ = _
      rw [Option.bind_some, Cursor.read, Cursor.length_sub_offset, if_neg (by omega)]
      exact bind_eq_some_iff.mpr ⟨slot', _, lift_eq_some_iff.mpr ⟨hstore, rfl⟩, rfl⟩

theorem DataDeclaration.tracks_decode_tail (obj : DataDeclaration) :
    Tracks obj.decode_tail obj.layout_tail fun _ => True := by
  intro cursor hsound
  have hobj : obj.Sound := hsound obj (List.mem_singleton_self _)
  rw [layout_tail, Layout.skip, decode_tail]
  by_cases hroom : obj.get_tail_size ≤ cursor.rest.length
  · rw [if_pos hroom]
    have hsize := obj.get_tail_size_eq_add
    obtain ⟨neutral_value, hneutral⟩ := exists_decode_bound obj.neutral_value cursor
      (fun h => hobj (by simp [h])) (show obj.width.toNat * obj.has_neutral_value.toNat ≤ _ by omega)
    obtain ⟨minimum_value, hminimum⟩ := exists_decode_bound obj.minimum_value
      (cursor.advance (obj.width.toNat * obj.has_neutral_value.toNat))
      (fun h => hobj (by simp [h])) (show obj.width.toNat * obj.has_minimum_value.toNat ≤ _ by
        rw [Cursor.rest_advance, List.length_drop]; omega)
    rw [Cursor.advance_advance] at hminimum
    obtain ⟨maximum_value, hmaximum⟩ := exists_decode_bound obj.maximum_value
      (cursor.advance (obj.width.toNat * obj.has_neutral_value.toNat +
        obj.width.toNat * obj.has_minimum_value.toNat))
      (fun h => hobj (by simp [h])) (show obj.width.toNat * obj.has_maximum_value.toNat ≤ _ by
        rw [Cursor.rest_advance, List.length_drop]; omega)
    rw [Cursor.advance_advance, Nat.add_assoc, ← hsize] at hmaximum
    refine ⟨(.SUCCESS, { obj with neutral_value, minimum_value, maximum_value }),
      cursor.advance obj.get_tail_size, ?_, rfl, trivial⟩
    refine bind_eq_some_iff.mpr ⟨cursor, cursor, rfl, ?_⟩
    rw [Cursor.length_sub_offset, if_neg (by omega)]
    refine bind_eq_some_iff.mpr ⟨_, _, hneutral, ?_⟩
    refine bind_eq_some_iff.mpr ⟨_, _, hminimum, ?_⟩
    exact bind_eq_some_iff.mpr ⟨_, _, hmaximum, rfl⟩
  · rw [if_neg hroom]
    refine ⟨(.BUFFER_UNDERFLOW, obj), cursor, ?_, rfl, trivial⟩
    refine bind_eq_some_iff.mpr ⟨cursor, cursor, rfl, ?_⟩
    rw [Cursor.length_sub_offset, if_pos (by omega)]
    rfl

theorem DataDeclaration.tracks_decode :
    Tracks DataDeclaration.decode DataDeclaration.layout fun _ => True := by
  have hdetail : Tracks decode_detail DataDeclaration.layout fun _ => True :=
    Tracks.behind (fun bytes => (empty.withHeader bytes).tracks_decode_tail) (Tracks.pure trivial)
  exact hdetail.bind_last fun result _ => Tracks.pure trivial

end Declarations

section Elements

variable [Heap]

theorem tracks_decodeName (name_length : UInt8) :
    Tracks (decodeName name_length) (Layout.skip name_length.toNat) fun _ => True := by
  intro cursor _
  rw [decodeName, Layout.skip, bind_apply]
  show ∃ value cursor', (some (cursor.read _)).bind _ = some (value, cursor') ∧ _
  rw [Option.bind_some, Cursor.read, Cursor.length_sub_offset]
  by_cases hroom : name_length.toNat ≤ cursor.rest.length
  · rw [if_neg (by omega), if_pos hroom]
    exact ⟨_, _, rfl, rfl, trivial⟩
  · rw [if_pos (by omega), if_neg hroom]
    exact ⟨_, _, rfl, rfl, trivial⟩

theorem NamedTyped.tracks_decode_rest (out : NamedTyped) :
    Tracks out.decode_rest out.layout_rest fun _ => True := by
  refine out.data_type.tracks_decode_tail.bind fun result _ => ?_
  by_cases hzero : out.name_length = 0
  · rw [hzero]
    simp only [ne_eq, not_true_eq_false, if_false]
    exact Tracks.pure trivial
  · simp only [ne_eq, hzero, not_false_eq_true, if_true]
    exact (tracks_decodeName out.name_length).bind_last fun name _ => Tracks.pure trivial

-- Without its header an element is read as an empty one.
theorem NamedTyped.tracks_empty {β : Type} {next : NamedTyped → Decode β}
    (hnext : ∀ rest, Tracks (next rest) Layout.done fun _ => True) :
    Tracks (NamedTyped.empty.decode_rest >>= next) Layout.done fun _ => True := by
  intro cursor _
  obtain ⟨value, cursor', hrun, hrest, -⟩ :=
    ((NamedTyped.tracks_decode_rest .empty).bind_last fun rest _ => hnext rest) cursor (by
      intro obj hobj hbound
      obtain rfl : obj = .empty := by
        simpa [NamedTyped.layout_rest, Layout.andThen, Layout.skip, DataDeclaration.layout_tail,
          NamedTyped.empty] using hobj
      exact absurd hbound (by decide))
  refine ⟨value, cursor', hrun, hrest.trans ?_, trivial⟩
  rfl

theorem ModuleInput.tracks_decode_copy :
    Tracks ModuleInput.decode_copy ModuleInput.layout fun _ => True :=
  Tracks.behind
    (fun _ => (NamedTyped.tracks_decode_rest _).bind_last fun _ _ => Tracks.pure trivial)
    (NamedTyped.tracks_empty fun _ => Tracks.pure trivial)

theorem Sensor.tracks_decode_copy : Tracks Sensor.decode_copy Sensor.layout fun _ => True :=
  Tracks.behind
    (fun _ => (NamedTyped.tracks_decode_rest _).bind_last fun _ _ => Tracks.pure trivial)
    (NamedTyped.tracks_empty fun _ => Tracks.pure trivial)

theorem ModuleInput.tracks_decode : Tracks ModuleInput.decode ModuleInput.layout Succeeds :=
  tracks_decode_copy.bind_last fun _ _ => Tracks.pure rfl

theorem Sensor.tracks_decode : Tracks Sensor.decode Sensor.layout Succeeds :=
  tracks_decode_copy.bind_last fun _ _ => Tracks.pure rfl

end Elements

section Modules

-- A module's counter only asks for the last element of an array that has one.
theorem tracks_decodeEach {α : Type} {decode_copy : Decode α} {layout : Bytes → Layout}
    (hdecode : Tracks decode_copy layout fun _ => True) (count : Nat) {array : SArray α}
    {old : List α} (hold : array.Holds old) :
    Tracks (Module.decodeEach decode_copy count array) (Layout.times layout count) fun array' =>
      ∃ elements, array'.Holds elements ∧ (count > 0 → elements ≠ []) := by
  let inv (array : SArray α) : Prop := ∃ elements, array.Holds elements ∧ elements ≠ []
  have hbody : ∀ (array : SArray α) (elements : List α), array.Holds elements → Tracks (do
      let element ← decode_copy
      StateT.lift (array.push element)) layout inv := by
    intro array elements hholds
    refine hdecode.bind_last fun element _ => ?_
    obtain ⟨array', hpush, hholds'⟩ := hholds.push element
    exact (Tracks.lift hpush).congr_post fun _ h => h ▸ ⟨_, hholds', by simp⟩
  rw [Module.decodeEach]
  cases count with
  | zero => exact Tracks.pure ⟨old, hold, fun hpos => absurd hpos (Nat.lt_irrefl 0)⟩
  | succ count =>
      rw [if_pos (Nat.succ_pos count)]
      refine (hbody _ old (hold.ensure_capacity (count + 1)).1).bind fun array harray => ?_
      refine (Tracks.iterate ?_ count harray).congr_post ?_
      · rintro array ⟨elements, hholds, -⟩
        exact hbody array elements hholds
      · rintro array ⟨elements, hholds, hne⟩
        exact ⟨elements, hholds, fun _ => hne⟩

theorem exists_back {α : Type} {array : SArray α} {elements : List α} (h : array.Holds elements)
    (hne : elements ≠ []) : ∃ v, array.back = some v := by
  obtain ⟨front, v, rfl⟩ := List.eq_nil_or_concat elements |>.resolve_left hne
  rw [List.concat_eq_append] at h
  exact ⟨v, h.back⟩

theorem Module.exists_restore_input_id {m : Module} {inputs : List ModuleInput}
    (h : m.inputs.Holds inputs) (hne : m.num_inputs.toNat > 0 → inputs ≠ []) :
    ∃ next_input_id, m.restore_input_id = some { m with next_input_id } := by
  rw [restore_input_id]
  split
  · rename_i hpos
    obtain ⟨v, hback⟩ := exists_back h (hne hpos.1)
    exact ⟨v.input_id + 1, by rw [hback]; rfl⟩
  · exact ⟨m.next_input_id, rfl⟩

theorem Module.exists_restore_sensor_id {m : Module} {sensors : List Sensor}
    (h : m.sensors.Holds sensors) (hne : m.num_sensors.toNat > 0 → sensors ≠ []) :
    ∃ next_sensor_id, m.restore_sensor_id = some { m with next_sensor_id } := by
  rw [restore_sensor_id]
  split
  · rename_i hpos
    obtain ⟨v, hback⟩ := exists_back h (hne hpos.1)
    exact ⟨UInt8.ofNat (v.id.toNat + 1), by rw [hback]; rfl⟩
  · exact ⟨m.next_sensor_id, rfl⟩

theorem Module.arrays_withHeader (m : Module) (bytes : Bytes) :
    (m.withHeader bytes).inputs = m.inputs ∧ (m.withHeader bytes).sensors = m.sensors := by
  unfold withHeader
  split
  · exact ⟨rfl, rfl⟩
  · exact ⟨rfl, rfl⟩

variable [Heap]

theorem Module.tracks_decode_name (m : Module) :
    Tracks m.decode_name (Layout.skip m.name_length.toNat) fun out =>
      ∃ name owns_name, out = { m with name, owns_name } := by
  rw [decode_name]
  by_cases hpos : m.name_length > 0
  · rw [if_pos hpos]
    exact (tracks_decodeName m.name_length).bind_last fun name _ => Tracks.pure ⟨_, _, rfl⟩
  · have hzero : m.name_length.toNat = 0 := Nat.le_zero.mp (Nat.not_lt.mp hpos)
    rw [if_neg hpos, hzero]
    exact Tracks.pure ⟨_, _, rfl⟩

-- What follows the header of a module, read into an object whose arrays are empty or hold
-- something.
theorem Module.tracks_decode_rest (m : Module) {inputs : List ModuleInput} {sensors : List Sensor}
    (hinputs : m.inputs.Holds inputs) (hsensors : m.sensors.Holds sensors) :
    Tracks (do
      let m ← m.decode_name
      let inputs ← decodeEach ModuleInput.decode_copy m.num_inputs.toNat m.inputs
      let m := { m with inputs }
      let sensors ← decodeEach Sensor.decode_copy m.num_sensors.toNat m.sensors
      let m := { m with sensors }
      let m ← StateT.lift m.restore_input_id
      let m ← StateT.lift m.restore_sensor_id
      return (DecodeResult.SUCCESS, m)) m.layout_rest Succeeds := by
  refine m.tracks_decode_name.bind ?_
  rintro _ ⟨name, owns_name, rfl⟩
  refine (tracks_decodeEach ModuleInput.tracks_decode_copy m.num_inputs.toNat hinputs).bind ?_
  rintro inputs ⟨elements, hholds, hne⟩
  refine (tracks_decodeEach Sensor.tracks_decode_copy m.num_sensors.toNat hsensors).bind_last ?_
  rintro sensors ⟨elements', hholds', hne'⟩
  let read : Module := { m with name, owns_name, inputs, sensors }
  obtain ⟨next_input_id, hrestored⟩ := exists_restore_input_id (m := read) hholds hne
  obtain ⟨next_sensor_id, hrestored'⟩ :=
    exists_restore_sensor_id (m := { read with next_input_id }) hholds' hne'
  refine (Tracks.lift hrestored).bind_last ?_
  rintro _ rfl
  refine (Tracks.lift hrestored').bind_last ?_
  rintro _ rfl
  exact Tracks.pure rfl

theorem Module.tracks_decode (m : Module) {inputs : List ModuleInput} {sensors : List Sensor}
    (hinputs : m.inputs.Holds inputs) (hsensors : m.sensors.Holds sensors) :
    Tracks m.decode m.layout Succeeds := by
  have hi : ∀ bytes, (m.reset.withHeader bytes).inputs.Holds [] := by
    intro bytes
    rw [(m.reset.arrays_withHeader bytes).1]
    exact hinputs.clear
  have hs : ∀ bytes, (m.reset.withHeader bytes).sensors.Holds [] := by
    intro bytes
    rw [(m.reset.arrays_withHeader bytes).2]
    exact hsensors.clear
  have hthere := fun bytes => (m.reset.withHeader bytes).tracks_decode_rest (hi bytes) (hs bytes)
  refine (Tracks.header hthere
    (m.reset.tracks_decode_rest hinputs.clear hsensors.clear)).congr fun data => ?_
  rw [layout]
  split
  · exact ⟨rfl, rfl⟩
  · exact ⟨rfl, rfl⟩

theorem Configuration.tracks_modules (count : Nat) {modules : SArray Module} {old : List Module}
    (hold : modules.Holds old) :
    Tracks (Decoder.iterate decode_module count (.SUCCESS, modules))
      (Layout.times Module.empty.layout count) fun state =>
        state.1 = .SUCCESS ∧ ∃ elements, state.2.Holds elements := by
  refine Tracks.iterate (fun state hstate => ?_) count ⟨rfl, old, hold⟩
  obtain ⟨r, modules⟩ := state
  obtain ⟨hr, elements, hholds⟩ := hstate
  obtain rfl : r = .SUCCESS := hr
  refine (Module.empty.tracks_decode SArray.holds_empty SArray.holds_empty).bind_last ?_
  rintro ⟨r, m⟩ hr
  obtain ⟨modules', hpush, hholds'⟩ := hholds.push m
  refine (Tracks.lift hpush).bind_last ?_
  rintro _ rfl
  exact Tracks.pure ⟨hr, _, hholds'⟩

theorem Configuration.exists_decode (c : Configuration) {modules : List Module}
    (hmodules : c.modules.Holds modules) (data : Bytes)
    (hsound : ∀ obj ∈ (layout data).declarations, obj.Sound) :
    ∃ result buf, c.decode (Cursor.ofList data) = some (result, buf) := by
  cases data with
  | nil => exact ⟨_, _, c.decode_nil⟩
  | cons num_modules data =>
      obtain ⟨⟨r, read⟩, buf, hrun, -⟩ := tracks_modules num_modules.toNat
        (hmodules.clear.ensure_capacity num_modules.toNat).1 ⟨[num_modules], data⟩ hsound
      refine ⟨(r, { c.reset with num_modules, modules := read }), buf, ?_⟩
      rw [c.decode_cons]
      exact bind_eq_some_iff.mpr ⟨(r, read), buf, hrun, rfl⟩

end Modules

namespace Value

section Keeps

variable [Heap] {target : Value} {data : Bytes}

-- The decode comes to an end without a store past a slot, and with an error if there is a bound
-- that does not fit its slot.
def KeepsSlots (target : Value) (data : Bytes) : Prop :=
  ∃ r buf, target.decode (Cursor.ofList data) = some (r, buf) ∧
    ((∃ obj ∈ (target.layout data).declarations, ¬obj.Sound) → r ≠ .SUCCESS)

theorem exists_decode (htarget : target.Declares)
    (hsound : ∀ obj ∈ (target.layout data).declarations, obj.Sound) :
    ∃ r buf, target.decode (Cursor.ofList data) = some (r, buf) := by
  have hfst : ∀ {α : Type} {decoder : Decode (DecodeResult × α)} {result : DecodeResult × α}
      {buf : DecodeBuffer}, decoder (Cursor.ofList data) = some (result, buf) →
        ∃ r buf, (Prod.fst <$> decoder) (Cursor.ofList data) = some (r, buf) := by
    intro α decoder result buf hrun
    exact ⟨result.1, buf, Option.bind_eq_some_iff.mpr ⟨(result, buf), hrun, rfl⟩⟩
  cases target with
  | declaration obj =>
      obtain ⟨result, buf, hrun, -⟩ := DataDeclaration.tracks_decode (Cursor.ofList data) hsound
      exact hfst hrun
  | input obj =>
      obtain ⟨result, buf, hrun, -⟩ := ModuleInput.tracks_decode (Cursor.ofList data) hsound
      exact hfst hrun
  | sensor obj =>
      obtain ⟨result, buf, hrun, -⟩ := Sensor.tracks_decode (Cursor.ofList data) hsound
      exact hfst hrun
  | module obj =>
      obtain ⟨⟨inputs, hinputs⟩, sensors, hsensors⟩ := htarget
      obtain ⟨result, buf, hrun, -⟩ :=
        obj.tracks_decode hinputs hsensors (Cursor.ofList data) hsound
      exact hfst hrun
  | configuration obj =>
      obtain ⟨modules, hmodules⟩ := htarget
      obtain ⟨result, buf, hrun⟩ := obj.exists_decode hmodules data hsound
      exact hfst hrun
  | control obj config => exact absurd htarget id

-- Since no decoder has an error to report once there is a header, the slots are only kept when
-- there is no bound to go past one.
theorem keepsSlots_iff (htarget : target.Declares) :
    target.KeepsSlots data ↔ ∀ obj ∈ (target.layout data).declarations, obj.Sound := by
  constructor
  · rintro ⟨r, buf, hrun, hr⟩ obj hobj
    by_contra hwide
    have hfails : r ≠ .SUCCESS := hr ⟨obj, hobj, hwide⟩
    obtain ⟨⟨c, rfl⟩, rfl⟩ := (target.reports_iff data).mp ⟨r, buf, hrun, hfails⟩
    exact absurd hobj List.not_mem_nil
  · intro hsound
    obtain ⟨r, buf, hrun⟩ := exists_decode htarget hsound
    refine ⟨r, buf, hrun, ?_⟩
    rintro ⟨obj, hobj, hwide⟩
    exact absurd (hsound obj hobj) hwide

end Keeps

-- A neutral value of two bytes, cut off after the first.
theorem short_keepsSlots_iff :
    @KeepsSlots Heap.zeros (.declaration .empty) [0x82, 0x20, 0x00, 0x07] ↔
      ∀ obj ∈ ((Value.declaration .empty).layout [0x82, 0x20, 0x00, 0x07]).declarations, obj.Sound :=
  @keepsSlots_iff Heap.zeros _ _ trivial

-- A neutral value of 17 bytes.
theorem wide_not_keepsSlots :
    ¬∀ (target : Value) (data : Bytes), target.Declares → @KeepsSlots Heap.zeros target data := by
  intro h
  obtain ⟨r, buf, hrun, -⟩ := h (.declaration .empty)
    ([0x42, 0x24, 0x00] ++ List.replicate 17 0x00) trivial
  exact absurd (show none = some (r, buf) from hrun) (by simp)

end Value

end RoboCrisp.Comms
