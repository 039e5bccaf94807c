import RoboCrisp.Comms.Layout

namespace RoboCrisp.Comms

open RoboCrisp.Stream RoboCrisp.Util

section Headers

theorem DataDeclaration.header_withHeader (obj : DataDeclaration) {bytes : Bytes}
    (h : bytes.length = HeaderSize) : (obj.withHeader bytes).header = bytes := by
  have hlt := ofLittleEndian_lt bytes
  have hbit : ∀ (n i : Nat), (n.testBit i).toNat = n / 2 ^ i % 2 := fun n i => Nat.toNat_testBit n i
  rw [h] at hlt
  have hbits : headerBits (obj.withHeader bytes).type (obj.withHeader bytes).width
      (obj.withHeader bytes).is_array (obj.withHeader bytes).is_signed
      (obj.withHeader bytes).has_neutral_value (obj.withHeader bytes).has_minimum_value
      (obj.withHeader bytes).has_maximum_value (obj.withHeader bytes).array_size_width =
        ofLittleEndian bytes := by
    simp only [headerBits, withHeader, BitVec.toNat_ofNat, UInt8.toNat_ofNat', hbit]
    simp only [HeaderSize] at hlt
    omega
  rw [header, hbits, ← h, littleEndian_ofLittleEndian]

theorem Sensor.headerBits_ofNat {bits : Nat} (h : bits < 2 ^ 16) :
    headerBits (BitVec.ofNat 10 bits) (BitVec.ofNat 5 (bits / 2 ^ 10)) (BitVec.ofNat 1 (bits / 2 ^ 15)) =
      bits := by
  simp only [headerBits, BitVec.toNat_ofNat]
  omega

end Headers

namespace Layout

variable {first : Layout} {next : Bytes → Layout} {layout : Bytes → Layout} {data : Bytes}

theorem complete_andThen (h : (first.andThen next).complete = true) :
    first.complete = true ∧ (next first.rest).complete = true := by
  rw [andThen, Bool.and_eq_true] at h
  exact h

theorem forall_andThen {p : DataDeclaration → Prop}
    (h : ∀ obj ∈ (first.andThen next).declarations, p obj) :
    (∀ obj ∈ first.declarations, p obj) ∧ ∀ obj ∈ (next first.rest).declarations, p obj :=
  List.forall_mem_append.mp h

theorem skip_eq {size : Nat} (h : (skip size data).complete = true) :
    size ≤ data.length ∧ skip size data = ⟨[], true, data.drop size⟩ := by
  by_cases hsize : size ≤ data.length
  · exact ⟨hsize, if_pos hsize⟩
  · rw [skip, if_neg hsize] at h
    exact absurd h Bool.false_ne_true

theorem behind_eq {size : Nat} {layout : Bytes → Bytes → Layout}
    (h : (behind size layout data).complete = true) :
    size ≤ data.length ∧ behind size layout data = layout (data.take size) (data.drop size) := by
  by_cases hsize : size ≤ data.length
  · exact ⟨hsize, if_pos hsize⟩
  · rw [behind, if_neg hsize] at h
    exact absurd h Bool.false_ne_true

end Layout

-- Data that supply all that they ask for spell contents, bit by bit.
def Spells {ι : Type} (layout : Bytes → Layout) (wire : ι → Bytes) : Prop :=
  ∀ data, (layout data).complete = true → (∀ obj ∈ (layout data).declarations, obj.Sound) →
    ∃ s, data = wire s ++ (layout data).rest

-- Elements one behind the other.
theorem Spells.times {ι : Type} {layout : Bytes → Layout} {wire : ι → Bytes} (h : Spells layout wire)
    (count : Nat) {data : Bytes} (hcomplete : (Layout.times layout count data).complete = true)
    (hsound : ∀ obj ∈ (Layout.times layout count data).declarations, obj.Sound) :
    ∃ items : List ι, items.length = count ∧
      data = items.flatMap wire ++ (Layout.times layout count data).rest := by
  induction count generalizing data with
  | zero => exact ⟨[], rfl, rfl⟩
  | succ count ih =>
      obtain ⟨hhead, htail⟩ := Layout.complete_andThen hcomplete
      obtain ⟨hhead', htail'⟩ := Layout.forall_andThen hsound
      obtain ⟨s, hs⟩ := h data hhead hhead'
      obtain ⟨items, hlength, hitems⟩ := ih htail htail'
      refine ⟨s :: items, by rw [List.length_cons, hlength], ?_⟩
      rw [List.flatMap_cons, List.append_assoc]
      rw [hitems] at hs
      exact hs

section Elements

theorem exists_bound (present : Bool) (width : Nat) (data : Bytes)
    (hsound : present = true → width ≤ 16) (hroom : width * present.toNat ≤ data.length) :
    ∃ bound : Option (Bound width), bound.isSome = present ∧
      Bound.wire bound = data.take (width * present.toNat) := by
  cases present with
  | false =>
      refine ⟨none, rfl, ?_⟩
      rw [Bool.toNat_false, Nat.mul_zero]
      rfl
  | true =>
      rw [Bool.toNat_true, Nat.mul_one] at hroom ⊢
      exact ⟨some ⟨data.take width, List.length_take_of_le hroom, hsound rfl⟩, rfl, rfl⟩

theorem DataDeclaration.exists_tail (obj : DataDeclaration) {data : Bytes} (hsound : obj.Sound)
    (hcomplete : (obj.layout_tail data).complete = true) :
    ∃ s : DeclarationContents, s.header = obj.header ∧ data = s.tail ++ (obj.layout_tail data).rest := by
  obtain ⟨hroom, hskip⟩ := Layout.skip_eq hcomplete
  have hsize : obj.get_tail_size = obj.width.toNat * obj.has_neutral_value.toNat +
      obj.width.toNat * obj.has_minimum_value.toNat +
        obj.width.toNat * obj.has_maximum_value.toNat := by
    rw [get_tail_size, Nat.mul_add, Nat.mul_add]
  obtain ⟨neutral, hneutral, hn⟩ := exists_bound obj.has_neutral_value obj.width.toNat data
    (fun h => hsound (by simp [h])) (by omega)
  obtain ⟨minimum, hminimum, hm⟩ := exists_bound obj.has_minimum_value obj.width.toNat
    (data.drop (obj.width.toNat * obj.has_neutral_value.toNat)) (fun h => hsound (by simp [h]))
    (by rw [List.length_drop]; omega)
  obtain ⟨maximum, hmaximum, hx⟩ := exists_bound obj.has_maximum_value obj.width.toNat
    (data.drop (obj.width.toNat * obj.has_neutral_value.toNat +
      obj.width.toNat * obj.has_minimum_value.toNat)) (fun h => hsound (by simp [h]))
    (by rw [List.length_drop]; omega)
  refine ⟨⟨obj.type, obj.width, obj.is_array, obj.is_signed, obj.array_size_width, neutral, minimum,
    maximum⟩, ?_, ?_⟩
  · rw [DeclarationContents.header, header, hneutral, hminimum, hmaximum]
  · rw [layout_tail, hskip, DeclarationContents.tail, hn, hm, hx, hsize, ← List.append_assoc,
      ← List.take_add, ← List.take_add, List.take_append_drop]

theorem NamedTyped.exists_rest (out : NamedTyped) {data : Bytes}
    (hsound : ∀ obj ∈ (out.layout_rest data).declarations, obj.Sound)
    (hcomplete : (out.layout_rest data).complete = true) :
    ∃ s : NamedContents, s.data_type.header = out.data_type.header ∧
      UInt8.ofNat s.name.length = out.name_length ∧ data = s.rest ++ (out.layout_rest data).rest := by
  obtain ⟨htail, hname⟩ := Layout.complete_andThen hcomplete
  have hobj : out.data_type.Sound := hsound _ (List.mem_append_left _ (List.mem_singleton_self _))
  obtain ⟨data_type, hheader, hdata⟩ := out.data_type.exists_tail hobj htail
  obtain ⟨hroom, hskip⟩ := Layout.skip_eq hname
  have hlength : ((out.data_type.layout_tail data).rest.take out.name_length.toNat).length =
      out.name_length.toNat := List.length_take_of_le hroom
  refine ⟨⟨_, by rw [hlength]; exact out.name_length.toNat_lt, data_type⟩, hheader, ?_, ?_⟩
  · rw [hlength, UInt8.ofNat_toNat]
  · rw [layout_rest, Layout.andThen, hskip, NamedContents.rest, List.append_assoc,
      List.take_append_drop]
    exact hdata

-- The bytes that a header was read from are the header of what was read.
theorem ModuleInput.spells : Spells ModuleInput.layout InputContents.wire := by
  intro data hcomplete hsound
  obtain ⟨hroom, hbehind⟩ := Layout.behind_eq hcomplete
  rw [layout, hbehind] at hcomplete hsound ⊢
  obtain ⟨s, hheader, hlength, hrest⟩ := NamedTyped.exists_rest _ hsound hcomplete
  match data, hroom with
  | input_id :: name_length :: low :: mid :: high :: rest, _ =>
      refine ⟨⟨s, input_id⟩, ?_⟩
      have htype : s.data_type.header = [low, mid, high] :=
        hheader.trans (DataDeclaration.header_withHeader _ rfl)
      rw [InputContents.wire, InputContents.header, htype, hlength, List.append_assoc, ← hrest]
      rfl

theorem Sensor.spells : Spells Sensor.layout SensorContents.wire := by
  intro data hcomplete hsound
  obtain ⟨hroom, hbehind⟩ := Layout.behind_eq hcomplete
  rw [layout, hbehind] at hcomplete hsound ⊢
  obtain ⟨s, hheader, hlength, hrest⟩ := NamedTyped.exists_rest _ hsound hcomplete
  match data, hroom with
  | first :: second :: name_length :: low :: mid :: high :: rest, _ =>
      let bits := ofLittleEndian [first, second]
      refine ⟨⟨s, BitVec.ofNat 10 bits, BitVec.ofNat 5 (bits / 2 ^ 10),
        BitVec.ofNat 1 (bits / 2 ^ 15)⟩, ?_⟩
      have htype : s.data_type.header = [low, mid, high] :=
        hheader.trans (DataDeclaration.header_withHeader _ rfl)
      have hfields : littleEndian 2 bits = [first, second] :=
        littleEndian_ofLittleEndian [first, second]
      have hlt : bits < 256 ^ 2 := ofLittleEndian_lt [first, second]
      rw [SensorContents.wire, SensorContents.header, headerBits_ofNat (by omega), htype,
        hlength, hfields, List.append_assoc, ← hrest]
      rfl

end Elements

section Modules

theorem Module.exists_rest (m : Module) {data : Bytes}
    (hsound : ∀ obj ∈ (m.layout_rest data).declarations, obj.Sound)
    (hcomplete : (m.layout_rest data).complete = true) :
    ∃ s : ModuleContents, s.header = m.header ∧
      data = s.name ++ (s.inputs.flatMap InputContents.wire ++
        s.sensors.flatMap SensorContents.wire) ++ (m.layout_rest data).rest := by
  obtain ⟨hname, hcomplete⟩ := Layout.complete_andThen hcomplete
  obtain ⟨hroom, hskip⟩ := Layout.skip_eq hname
  obtain ⟨-, hsound⟩ := Layout.forall_andThen hsound
  rw [layout_rest, Layout.andThen]
  rw [hskip] at hcomplete hsound ⊢
  obtain ⟨hinputs, hsensors⟩ := Layout.complete_andThen hcomplete
  obtain ⟨hsi, hss⟩ := Layout.forall_andThen hsound
  obtain ⟨inputs, hni, hi⟩ := ModuleInput.spells.times _ hinputs hsi
  obtain ⟨sensors, hns, hs⟩ := Sensor.spells.times _ hsensors hss
  have hchars : (data.take m.name_length.toNat).length = m.name_length.toNat :=
    List.length_take_of_le hroom
  refine ⟨⟨m.id, data.take m.name_length.toNat, by rw [hchars]; exact m.name_length.toNat_lt, inputs,
    by rw [hni]; exact m.num_inputs.toNat_lt, sensors, by rw [hns]; exact m.num_sensors.toNat_lt⟩, ?_, ?_⟩
  · simp only [ModuleContents.header, header, hni, hns, hchars, UInt8.ofNat_toNat]
  · have hbody := hi.trans (congrArg (inputs.flatMap InputContents.wire ++ ·) hs)
    calc data = data.take m.name_length.toNat ++ data.drop m.name_length.toNat :=
          (List.take_append_drop _ _).symm
      _ = _ := congrArg (data.take m.name_length.toNat ++ ·) hbody
      _ = _ := by rw [List.append_assoc, List.append_assoc]; rfl

theorem Module.spells (m : Module) : Spells m.layout ModuleContents.wire := by
  intro data hcomplete hsound
  rw [layout] at hcomplete hsound ⊢
  by_cases hroom : HeaderSize ≤ data.length
  · rw [if_pos hroom] at hcomplete hsound ⊢
    match data, hroom with
    | id :: num_inputs :: num_sensors :: name_length :: rest, _ =>
        obtain ⟨s, hheader, hrest⟩ := exists_rest _ hsound hcomplete
        refine ⟨s, ?_⟩
        rw [ModuleContents.wire, hheader, List.append_assoc, ← hrest]
        rfl
  · rw [if_neg hroom] at hcomplete
    exact absurd hcomplete Bool.false_ne_true

theorem Configuration.spells : Spells Configuration.layout ConfigurationContents.wire := by
  intro data hcomplete hsound
  cases data with
  | nil => exact absurd hcomplete Bool.false_ne_true
  | cons num_modules data =>
      obtain ⟨modules, hcount, hdata⟩ := (Module.spells .empty).times num_modules.toNat hcomplete hsound
      refine ⟨⟨modules, by rw [hcount]; exact num_modules.toNat_lt⟩, ?_⟩
      have hbyte : UInt8.ofNat modules.length = num_modules := by
        rw [hcount, UInt8.ofNat_toNat]
      show num_modules :: data = UInt8.ofNat modules.length :: (modules.flatMap ModuleContents.wire ++ _)
      rw [hbyte]
      exact congrArg (num_modules :: ·) hdata

end Modules

namespace Configuration

section Reencodes

variable [Heap]

-- The decode succeeds, and what it has read is what the decoded object is sent as.
def Reencodes (target : Configuration) (w : Bytes) : Prop :=
  ∃ out buf, target.decode (Cursor.ofList w) = some ((.SUCCESS, out), buf) ∧ buf.data = w ∧
    out.get_encoded_size = some buf.offset ∧
    ∀ sink : MemoryEncodeBuffer, buf.offset ≤ sink.free →
      out.encode sink = some (.SUCCESS, sink.append (w.take buf.offset))

-- Whatever the data say: no part of them is put right or left out on the way.
theorem reencodes_of_complete (target : Configuration) {old : List Module}
    (htarget : target.modules.Holds old) (w : Bytes) (hcomplete : (layout w).complete = true)
    (hwidth : ∀ obj ∈ (layout w).declarations, obj.width.toNat ≤ 16) : target.Reencodes w := by
  obtain ⟨s, hw⟩ := spells w hcomplete fun obj hobj _ => hwidth obj hobj
  obtain ⟨out, modules, hdecode, hcount, -, hholds, hmatches⟩ :=
    consumes_decode s (htarget.clear.ensure_capacity _).1
  have hrep : out.Represents s := ⟨hcount, modules, .inl hholds, hmatches.imp fun _ _ hm => hm.1⟩
  have hoffset : ((Cursor.ofList w).advance s.wire.length).offset = s.wire.length := by
    have hle : s.wire.length ≤ (Cursor.ofList w).rest.length := by
      rw [Cursor.rest_ofList, hw, List.length_append]
      omega
    rw [Cursor.offset_advance _ _ hle]
    exact Nat.zero_add _
  have htake : w.take s.wire.length = s.wire := by
    rw [hw, List.take_left]
  refine ⟨out, (Cursor.ofList w).advance s.wire.length, hdecode _ _ hw, Cursor.data_advance _ _, ?_, ?_⟩
  · rw [hoffset, hrep.get_encoded_size_eq]
  · rw [hoffset, htake]
    exact hrep.stores

end Reencodes

-- A module with a NUL in its name, and an input of a type that there is not, with a minimum.
def oddWire : Bytes :=
  [0x01, 0x07, 0x01, 0x00, 0x02, 0x41, 0x00, 0x63, 0x01, 0x7f, 0x40, 0x05, 0xff, 0x00]

theorem oddWire_reencodes : @Reencodes Heap.zeros (Configuration.empty 0) (oddWire ++ [0xee]) :=
  @reencodes_of_complete Heap.zeros (Configuration.empty 0) [] (SArray.holds_alloc 0)
    (oddWire ++ [0xee]) (by decide) (by decide)

end Configuration

end RoboCrisp.Comms
