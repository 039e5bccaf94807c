import RoboCrisp.Comms.NamedTyped.Lemmas
import RoboCrisp.Util.SArray.Lemmas

namespace RoboCrisp.Comms

open RoboCrisp.Stream RoboCrisp.Util

section Elements

variable {α ι : Type} {Rep : α → ι → Prop} {wire : ι → Bytes}

-- The assertion behind each element holds because an element is one checked write.
theorem emits_encodeEach {encode : α → Encode} {get_encoded_size : α → Nat}
    (hencode : ∀ element item, Rep element item → Emits (encode element) [⟨wire item, true⟩])
    (hsize : ∀ element item, Rep element item → get_encoded_size element = (wire item).length)
    {elements : List α} {items : List ι} (h : List.Forall₂ Rep elements items) :
    Emits (encodeEach encode get_encoded_size elements) (items.map fun item => ⟨wire item, true⟩) := by
  induction h with
  | nil => exact Encoder.Emits.pure
  | @cons element item elements items hhead htail ih =>
      intro sink
      have hrun : encodeEach encode get_encoded_size (element :: elements) sink =
          (encode element sink).bind fun p =>
            (if p.1 ≠ .SUCCESS then pure p.1
            else do
              let post ← get
              if post.offset - sink.offset = get_encoded_size element then
                encodeEach encode get_encoded_size elements
              else StateT.lift none : Encode) p.2 := rfl
      rw [hrun, hencode element item hhead sink, List.map_cons]
      by_cases hfits : (wire item).length ≤ sink.free
      · have hoffset : (sink.append (wire item)).offset - sink.offset =
            get_encoded_size element := by
          rw [Sink.offset_append, hsize element item hhead, Nat.add_sub_cancel_left]
        simp only [emitted, if_pos hfits, List.append_nil, ite_true, Option.bind_some, ne_eq,
          not_true_eq_false, ite_false]
        change (if (sink.append (wire item)).offset - sink.offset = get_encoded_size element then
          encodeEach encode get_encoded_size elements else StateT.lift none) _ = _
        rw [if_pos hoffset, ih, Sink.free_append, Sink.append_append]
      · simp [emitted, hfits, pure_apply]

theorem consumes_decodeEach {decode_copy : Decode α} {items : List ι}
    (hdecode : ∀ item ∈ items, ∃ out, Decoder.Consumes decode_copy (wire item) out ∧ Rep out item)
    {array : SArray α} (harray : array.Holds []) :
    ∃ array' elements, Decoder.Consumes (Module.decodeEach decode_copy items.length array)
      (items.flatMap wire) array' ∧ array'.Holds elements ∧ List.Forall₂ Rep elements items := by
  unfold Module.decodeEach
  by_cases hcount : items.length > 0
  · rw [if_pos hcount]
    -- after each turn the array holds the elements read so far
    have hstep : ∀ done item (array : SArray α), item ∈ items →
        (∃ elements, array.Holds elements ∧ List.Forall₂ Rep elements done) →
        ∃ array', Decoder.Consumes (do
            let element ← decode_copy
            StateT.lift (array.push element)) (wire item) array' ∧
          ∃ elements, array'.Holds elements ∧ List.Forall₂ Rep elements (done ++ [item]) := by
      rintro done item array hitem ⟨elements, hholds, hrep⟩
      obtain ⟨out, hout, hitem⟩ := hdecode item hitem
      obtain ⟨array', hpush, hholds'⟩ := hholds.push out
      exact ⟨array', hout.bind_last (Decoder.Consumes.lift hpush), _, hholds',
        List.rel_append hrep (.cons hitem .nil)⟩
    obtain ⟨array', hloop, elements, hholds, hrep⟩ := Decoder.Consumes.iterate items hstep []
      (array.ensure_capacity items.length) ⟨[], (harray.ensure_capacity _).1, .nil⟩
    exact ⟨array', elements, hloop, hholds, hrep⟩
  · obtain rfl : items = [] := List.length_eq_zero_iff.mp (by omega)
    exact ⟨array, [], Decoder.Consumes.pure array, harray, .nil⟩

theorem sum_map_eq {get_encoded_size : α → Nat}
    (hsize : ∀ element item, Rep element item → get_encoded_size element = (wire item).length)
    {elements : List α} {items : List ι} (h : List.Forall₂ Rep elements items) :
    (elements.map get_encoded_size).sum = (items.flatMap wire).length := by
  induction h with
  | nil => rfl
  | cons hhead htail ih =>
      rw [List.map_cons, List.sum_cons, hsize _ _ hhead, ih, List.flatMap_cons, List.length_append]

-- What the code finds at the end of an array that goes with a counter.
theorem last_cases {count : UInt8} {array : SArray α} {elements : List α} {items : List ι}
    (hcount : count.toNat = items.length) (hholds : array.Holds elements)
    (hrep : List.Forall₂ Rep elements items) :
    (items = [] ∧ ¬count > 0) ∨
      ∃ front last v, items = front ++ [last] ∧ count > 0 ∧ array.data.isSome = true ∧
        array.back = some v ∧ Rep v last := by
  rcases List.eq_nil_or_concat items with rfl | ⟨front, last, rfl⟩
  · refine .inl ⟨rfl, fun hpos => ?_⟩
    have hpos : 0 < count.toNat := hpos
    simp [hcount] at hpos
  · right
    rw [List.concat_eq_append] at hcount hrep ⊢
    obtain ⟨v, tail, hv, htail, hdrop⟩ :=
      List.forall₂_cons_right_iff.mp (List.forall₂_drop_append _ _ _ hrep)
    obtain rfl := List.forall₂_nil_right_iff.mp htail
    have helements : elements = elements.take front.length ++ [v] := by
      rw [← hdrop, List.take_append_drop]
    have hpos : count > 0 := by
      change 0 < count.toNat
      rw [hcount, List.length_append]
      exact Nat.succ_pos _
    refine ⟨front, last, v, rfl, hpos, ?_, (helements ▸ hholds).back, hv⟩
    obtain ⟨-, ⟨-, -, hnil⟩ | ⟨spare, hdata, -⟩⟩ := hholds
    · rw [hnil] at helements
      simp at helements
    · rw [hdata]
      rfl

end Elements

namespace Module

variable {m : Module} {s : ModuleContents}

def pieces (s : ModuleContents) : List (Piece UInt8) :=
  ⟨s.header, false⟩ :: ⟨s.name, false⟩ ::
    (s.inputs.map (fun input => ⟨input.wire, true⟩) ++
      s.sensors.map fun sensor => ⟨sensor.wire, true⟩)

theorem wire_map {ι : Type} (wire : ι → Bytes) (checked : Bool) (items : List ι) :
    Stream.wire (items.map fun item => ⟨wire item, checked⟩) = items.flatMap wire := by
  induction items with
  | nil => rfl
  | cons item items ih => rw [List.map_cons, wire_cons, ih, List.flatMap_cons]

theorem wire_pieces (s : ModuleContents) : Stream.wire (pieces s) = s.wire := by
  simp only [pieces, wire_cons, wire_append, wire_map, ModuleContents.wire]

theorem length_header (s : ModuleContents) : s.header.length = HeaderSize := rfl

theorem Represents.shows (h : m.Represents s) : m.Shows s := by
  obtain ⟨inputs, hinputs, hri⟩ := h.inputs
  obtain ⟨sensors, hsensors, hrs⟩ := h.sensors
  exact ⟨h.id_eq, h.name, h.num_inputs_eq, ⟨inputs, hinputs.elems, hri⟩, h.num_sensors_eq,
    ⟨sensors, hsensors.elems, hrs⟩⟩

theorem Shows.header_eq (h : m.Shows s) : m.header = s.header := by
  rw [header, ModuleContents.header, h.id_eq, eq_ofNat_length h.num_inputs_eq,
    eq_ofNat_length h.num_sensors_eq, eq_ofNat_length h.name.1]

theorem Shows.get_encoded_size_eq (h : m.Shows s) :
    m.get_encoded_size = some s.wire.length := by
  obtain ⟨inputs, hinputs, hri⟩ := h.inputs
  obtain ⟨sensors, hsensors, hrs⟩ := h.sensors
  have hi := sum_map_eq (fun _ (item : InputContents) h =>
    ModuleInput.Represents.get_encoded_size_eq (s := item) h) hri
  have hs := sum_map_eq (fun _ (item : SensorContents) h =>
    Sensor.Represents.get_encoded_size_eq (s := item) h) hrs
  simp only [get_encoded_size, hinputs, hsensors, Option.bind_eq_bind, Option.bind_some,
    hi, hs, h.name.1, ModuleContents.wire, List.length_append, length_header, Option.pure_def,
    Option.some.injEq]
  omega

theorem Shows.emits_inputs (h : m.Shows s) :
    Emits m.encode_inputs (s.inputs.map fun input => ⟨input.wire, true⟩) := by
  obtain ⟨inputs, hinputs, hrep⟩ := h.inputs
  unfold encode_inputs
  by_cases hcount : m.num_inputs > 0
  · rw [if_pos hcount, hinputs]
    exact emits_encodeEach (fun _ _ h => ModuleInput.Represents.emits h)
      (fun _ _ h => ModuleInput.Represents.get_encoded_size_eq h) hrep
  · have hnil : s.inputs = [] := by
      have hzero : ¬0 < m.num_inputs.toNat := hcount
      exact List.length_eq_zero_iff.mp (by rw [← h.num_inputs_eq]; omega)
    rw [if_neg hcount, hnil]
    exact Encoder.Emits.pure

theorem Shows.emits_sensors (h : m.Shows s) :
    Emits m.encode_sensors (s.sensors.map fun sensor => ⟨sensor.wire, true⟩) := by
  obtain ⟨sensors, hsensors, hrep⟩ := h.sensors
  unfold encode_sensors
  by_cases hcount : m.num_sensors > 0
  · rw [if_pos hcount, hsensors]
    exact emits_encodeEach (fun _ _ h => Sensor.Represents.emits h)
      (fun _ _ h => Sensor.Represents.get_encoded_size_eq h) hrep
  · have hnil : s.sensors = [] := by
      have hzero : ¬0 < m.num_sensors.toNat := hcount
      exact List.length_eq_zero_iff.mp (by rw [← h.num_sensors_eq]; omega)
    rw [if_neg hcount, hnil]
    exact Encoder.Emits.pure

-- The results of the first two writes are dropped.
theorem Shows.emits (h : m.Shows s) : Emits m.encode (pieces s) := by
  unfold encode
  rw [h.header_eq, h.name.writeName_eq]
  exact Encoder.Emits.write_ignored _
    (Encoder.Emits.write_ignored _ (h.emits_inputs.andThen h.emits_sensors))

section Decode

-- The counters as decode leaves them.
def nextInputId (s : ModuleContents) : UInt8 :=
  match s.inputs.getLast? with
  | none => 0
  | some input => input.input_id + 1

def nextSensorId (s : ModuleContents) : UInt8 :=
  match s.sensors.getLast? with
  | none => 0
  | some sensor => UInt8.ofNat (sensor.id.toNat + 1)

-- An object with the counters that decode leaves.
def Matches (m : Module) (s : ModuleContents) : Prop :=
  m.Represents s ∧ m.next_input_id = nextInputId s ∧ m.next_sensor_id = nextSensorId s

theorem consumes_decode_name [Heap] (m : Module) {chars : Bytes} (h : m.name_length.toNat = chars.length) :
    ∃ name owns_name, Decoder.Consumes m.decode_name chars { m with name, owns_name } ∧
      NameIs name m.name_length chars := by
  unfold decode_name
  by_cases hpos : m.name_length > 0
  · rw [if_pos hpos]
    exact ⟨_, _, (consumes_decodeName h).bind_last (Decoder.Consumes.pure _), h,
      fun _ => ⟨_, rfl, List.prefix_append _ _⟩⟩
  · have hzero : m.name_length.toNat = 0 := by
      have : ¬0 < m.name_length.toNat := hpos
      omega
    obtain rfl : chars = [] := List.length_eq_zero_iff.mp (by rw [← h, hzero])
    rw [if_neg hpos]
    exact ⟨_, _, Decoder.Consumes.pure _, h, fun hne => absurd rfl hne⟩

theorem restore_input_id_eq (h : m.Represents s) (hzero : m.next_input_id = 0) :
    m.restore_input_id = some { m with next_input_id := nextInputId s } := by
  obtain ⟨inputs, hinputs, hrep⟩ := h.inputs
  unfold restore_input_id nextInputId
  obtain ⟨hnil, hnot⟩ | ⟨front, last, v, hlast, hpos, hsome, hback, hv⟩ :=
    last_cases h.num_inputs_eq hinputs hrep
  · rw [if_neg fun hp => hnot hp.1, hnil, List.getLast?_nil, ← hzero]
  · rw [if_pos ⟨hpos, hsome⟩, hback, hlast, List.getLast?_concat]
    simp [hv.input_id_eq]

theorem restore_sensor_id_eq (h : m.Represents s) (hzero : m.next_sensor_id = 0) :
    m.restore_sensor_id = some { m with next_sensor_id := nextSensorId s } := by
  obtain ⟨sensors, hsensors, hrep⟩ := h.sensors
  unfold restore_sensor_id nextSensorId
  obtain ⟨hnil, hnot⟩ | ⟨front, last, v, hlast, hpos, hsome, hback, hv⟩ :=
    last_cases h.num_sensors_eq hsensors hrep
  · rw [if_neg fun hp => hnot hp.1, hnil, List.getLast?_nil, ← hzero]
  · rw [if_pos ⟨hpos, hsome⟩, hback, hlast, List.getLast?_concat]
    simp [hv.id_eq]

theorem consumes_decode [Heap] {old_inputs : List ModuleInput} {old_sensors : List Sensor}
    (hinputs : m.inputs.Holds old_inputs) (hsensors : m.sensors.Holds old_sensors)
    (s : ModuleContents) :
    ∃ out, Decoder.Consumes m.decode s.wire (.SUCCESS, out) ∧ out.Matches s := by
  -- the object behind the header
  have hlength : (UInt8.ofNat s.name.length).toNat = s.name.length :=
    toNat_ofNat_length s.name_length_lt
  have hni : (UInt8.ofNat s.inputs.length).toNat = s.inputs.length :=
    toNat_ofNat_length s.num_inputs_lt
  have hns : (UInt8.ofNat s.sensors.length).toNat = s.sensors.length :=
    toNat_ofNat_length s.num_sensors_lt
  obtain ⟨name, owns_name, hname, hnameIs⟩ :=
    consumes_decode_name (m.reset.withHeader s.header)
      (show (m.reset.withHeader s.header).name_length.toNat = s.name.length from hlength)
  obtain ⟨inputs, ilist, hdi, hhi, hri⟩ := consumes_decodeEach
    (fun input (_ : input ∈ s.inputs) => ModuleInput.consumes_decode_copy input) hinputs.clear
  obtain ⟨sensors, slist, hds, hhs, hrs⟩ := consumes_decodeEach
    (fun sensor (_ : sensor ∈ s.sensors) => Sensor.consumes_decode_copy sensor) hsensors.clear
  let out : Module :=
    { m.reset.withHeader s.header with name, owns_name, inputs, sensors }
  have hout : out.Represents s := ⟨rfl, hnameIs, hni, ⟨ilist, hhi, hri⟩, hns, ⟨slist, hhs, hrs⟩⟩
  have hinput := restore_input_id_eq hout rfl
  have hsensor : ({ out with next_input_id := nextInputId s } : Module).restore_sensor_id =
      some { out with next_input_id := nextInputId s, next_sensor_id := nextSensorId s } :=
    restore_sensor_id_eq (m := { out with next_input_id := nextInputId s })
      ⟨rfl, hnameIs, hni, ⟨ilist, hhi, hri⟩, hns, ⟨slist, hhs, hrs⟩⟩ rfl
  refine ⟨{ out with next_input_id := nextInputId s, next_sensor_id := nextSensorId s }, ?_,
    ⟨rfl, hnameIs, hni, ⟨ilist, hhi, hri⟩, hns, ⟨slist, hhs, hrs⟩⟩, rfl, rfl⟩
  have hread : Decoder.Consumes (read HeaderSize) s.header (some s.header) :=
    Decoder.Consumes.read (length_header s)
  have hdi' : Decoder.Consumes (decodeEach ModuleInput.decode_copy
      (UInt8.ofNat s.inputs.length).toNat m.inputs.clear) (s.inputs.flatMap InputContents.wire)
      inputs := by
    rw [hni]
    exact hdi
  have hds' : Decoder.Consumes (decodeEach Sensor.decode_copy
      (UInt8.ofNat s.sensors.length).toNat m.sensors.clear) (s.sensors.flatMap SensorContents.wire)
      sensors := by
    rw [hns]
    exact hds
  have hids : Decoder.Consumes (β := UInt8) (do
      let m ← StateT.lift out.restore_input_id
      let m ← StateT.lift m.restore_sensor_id
      return (DecodeResult.SUCCESS, m)) []
      (.SUCCESS, { out with next_input_id := nextInputId s, next_sensor_id := nextSensorId s }) :=
    (Decoder.Consumes.lift hinput).bind_nil
      ((Decoder.Consumes.lift hsensor).bind_nil (Decoder.Consumes.pure _))
  exact hread.bind (hname.bind (hdi'.bind (hds'.bind_last hids)))

end Decode

end Module

end RoboCrisp.Comms
