import RoboCrisp.Comms.DataValue.Span
import RoboCrisp.Comms.ModuleControl.Transcoding
import RoboCrisp.Comms.Truncation

namespace RoboCrisp.Comms

open RoboCrisp.Stream RoboCrisp.Util

namespace ModuleControl

-- The header that the data begin with.
def announced (data : Bytes) : ModuleControl := empty.withHeader (data.take HeaderSize)

-- The room that a value takes at the front of the data. An array counts its elements first.
def valueSize (data_type : DataDeclaration) (data : Bytes) : Nat :=
  let width := data_type.width.toNat
  if data_type.is_array then width + ofLittleEndian (data.take width) * width else width

-- The values of the inputs `ids` are all there.
def Supplies (m : Module) : List Nat → Bytes → Prop
  | [], _ => True
  | i :: rest, data => ∃ input, m.inputs.get i = some input ∧
      valueSize input.data_type data ≤ data.length ∧
        Supplies m rest (data.drop (valueSize input.data_type data))

-- A body, with a length that is a size_t, that is long enough and names nothing that there is not.
def Complete (config : Configuration) (data : Bytes) : Prop :=
  data.length < 2 ^ 64 ∧ HeaderSize ≤ data.length ∧ (announced data).module_id < config.num_modules ∧
    ∃ m, config.modules.get (announced data).module_id.toNat = some m ∧
      (∀ i ∈ setInputs (announced data).input_ids, i < m.num_inputs.toNat) ∧
        Supplies m (announced data).carried (data.drop HeaderSize)

-- Nothing outside of the data and the configuration is looked at, no assertion fails, and a
-- body that is not complete is not taken for one.
def DecodesSafely [Heap] (mc : ModuleControl) (config : Configuration) (data : Bytes) : Prop :=
  (∀ module_id ∈ data.head?, module_id < config.num_modules) ∧
    ∃ r out buf, mc.decode config (Cursor.ofList data) = some ((r, out), buf) ∧
      (¬Complete config data → r ≠ .SUCCESS)

-- The inputs that the loop over the announced ids goes through.
def Visits (m : Module) : List Nat → List ModuleInput → Prop :=
  List.Forall₂ fun i input => i < m.num_inputs.toNat ∧ m.inputs.get i = some input

-- The counts of array values fit into a size_t.
def Countable (data_type : DataDeclaration) : Prop :=
  data_type.is_array = true → data_type.width.toNat ≤ 8

-- No value is added to an array that was moved away but has kept its capacity.
def HasRoom (mc : ModuleControl) (count : Nat) : Prop :=
  count = 0 ∨ mc.values.data ≠ none ∨ mc.values.capacity < count ∨ mc.values.capacity ≤ mc.values.size

def Storable (mc : ModuleControl) (config : Configuration) (data : Bytes) : Prop :=
  mc.HasRoom (announced data).carried.length ∧
    ∀ m, config.modules.get (announced data).module_id.toNat = some m →
      ∀ i ∈ (announced data).carried, ∀ input, m.inputs.get i = some input →
        Countable input.data_type

variable {config : Configuration} {m : Module} {data : Bytes}

section Values

theorem exists_span {data_type : DataDeclaration} (h : Countable data_type) (rest : Bytes) :
    ∃ lead size, DataValue.span data_type rest = some (lead, size) := by
  rw [DataValue.span]
  split
  · split
    · exact ⟨_, _, rfl⟩
    · rw [if_pos (h ‹_›)]
      exact ⟨_, _, rfl⟩
  · exact ⟨_, _, rfl⟩

theorem exists_spans (types : List DataDeclaration) (h : ∀ data_type ∈ types, Countable data_type)
    (rest : Bytes) : ∃ size, DataValue.spans types rest = some size := by
  induction types generalizing rest with
  | nil => exact ⟨0, rfl⟩
  | cons data_type types ih =>
      obtain ⟨lead, own, hspan⟩ := exists_span (h data_type List.mem_cons_self) rest
      obtain ⟨more, hmore⟩ := ih (fun other hother => h other (List.mem_cons_of_mem _ hother))
        (rest.drop (lead + own))
      exact ⟨_, DataValue.spans_cons_iff.mpr ⟨lead, own, more, hspan, hmore, rfl⟩⟩

-- One turn of the loop over the announced inputs.
theorem decode_values_cons_iff [Heap] {i : Nat} {rest : List Nat} {values : SArray ValuePair}
    {buf : DecodeBuffer} {result : SArray ValuePair × DecodeBuffer} :
    decode_values m (i :: rest) values buf = some result ↔
      i < m.num_inputs.toNat ∧ ∃ input dv middle pushed, m.inputs.get i = some input ∧
        DataValue.decode input.data_type buf = some (dv, middle) ∧
          values.push ⟨some input, dv⟩ = some pushed ∧
            decode_values m rest pushed middle = some result := by
  rw [decode_values]
  by_cases hi : i < m.num_inputs.toNat
  · rw [if_pos hi, and_iff_right hi]
    constructor
    · intro hrun
      obtain ⟨input, buf, hget, hrun⟩ := bind_eq_some_iff.mp hrun
      obtain ⟨hget, rfl⟩ := lift_eq_some_iff.mp hget
      obtain ⟨dv, middle, hvalue, hrun⟩ := bind_eq_some_iff.mp hrun
      obtain ⟨pushed, last, hpush, hrun⟩ := bind_eq_some_iff.mp hrun
      obtain ⟨hpush, rfl⟩ := lift_eq_some_iff.mp hpush
      exact ⟨input, dv, middle, pushed, hget, hvalue, hpush, hrun⟩
    · rintro ⟨input, dv, middle, pushed, hget, hvalue, hpush, hrun⟩
      refine bind_eq_some_iff.mpr ⟨input, buf, lift_eq_some_iff.mpr ⟨hget, rfl⟩, ?_⟩
      refine bind_eq_some_iff.mpr ⟨dv, middle, hvalue, ?_⟩
      exact bind_eq_some_iff.mpr ⟨pushed, middle, lift_eq_some_iff.mpr ⟨hpush, rfl⟩, hrun⟩
  · rw [if_neg hi]
    exact iff_of_false (by rintro ⟨⟩) fun hrun => hi hrun.1

-- The loop gets to its end if there are all the inputs, and no count is too wide.
theorem exists_decode_values [Heap] (ids : List Nat) (values : SArray ValuePair)
    (buf : DecodeBuffer) :
    (∃ result, decode_values m ids values buf = some result) ↔
      (∃ inputs size, Visits m ids inputs ∧
        DataValue.spans (inputs.map fun input => input.data_type) buf.rest = some size) ∧
          (ids = [] ∨ values.Pushable) := by
  induction ids generalizing values buf with
  | nil => exact iff_of_true ⟨_, rfl⟩ ⟨⟨[], 0, .nil, rfl⟩, .inl rfl⟩
  | cons i rest ih =>
      constructor
      · rintro ⟨result, hrun⟩
        obtain ⟨hi, input, value, middle, pushed, hget, hvalue, hpush, hrun⟩ :=
          decode_values_cons_iff.mp hrun
        obtain ⟨⟨inputs, more, hvisits, hmore⟩, -⟩ := (ih pushed middle).mp ⟨result, hrun⟩
        refine ⟨⟨input :: inputs, ?_⟩, .inr (SArray.pushable_iff.mpr ⟨pushed, hpush⟩)⟩
        cases hspan : DataValue.span input.data_type buf.rest with
        | none =>
            rw [DataValue.decode_of_span_none hspan] at hvalue
            cases hvalue
        | some taken =>
            obtain ⟨_, hdecode, -⟩ := DataValue.decode_of_span hspan
            obtain ⟨-, rfl⟩ := Prod.mk.inj (Option.some.inj (hvalue.symm.trans hdecode))
            exact ⟨_, .cons ⟨hi, hget⟩ hvisits,
              DataValue.spans_cons_iff.mpr ⟨_, _, more, hspan, hmore, rfl⟩⟩
      · rintro ⟨⟨inputs, size, hvisits, hspans⟩, hroom⟩
        cases hvisits with
        | cons hname hvisits =>
            obtain ⟨lead, own, more, hspan, hmore, -⟩ := DataValue.spans_cons_iff.mp hspans
            obtain ⟨value, hvalue, -⟩ := DataValue.decode_of_span hspan
            obtain ⟨pushed, hpush⟩ := (SArray.pushable_iff (v := ⟨some _, ⟨_, value⟩⟩)).mp
              (hroom.resolve_left (List.cons_ne_nil _ _))
            obtain ⟨result, hresult⟩ := (ih pushed (buf.advance (lead + own))).mpr
              ⟨⟨_, more, hvisits, hmore⟩, .inr (SArray.pushable_push hpush)⟩
            exact ⟨result, decode_values_cons_iff.mpr
              ⟨hname.1, _, _, _, pushed, hname.2, hvalue, hpush, hresult⟩⟩

end Values

section Message

theorem hasRoom_iff {mc : ModuleControl} {count : Nat} (h : count > 0) :
    mc.HasRoom count ↔ (mc.values.clear.ensure_capacity count).Pushable := by
  have hdata : mc.values.clear.data ≠ none ↔ mc.values.data ≠ none := by
    cases hcells : mc.values.data <;> simp [SArray.clear, hcells]
  rw [HasRoom, SArray.Pushable, SArray.size_ensure_capacity, SArray.ensure_capacity]
  by_cases hnull : mc.values.data = none
  · have hclear : mc.values.clear = mc.values := by rw [SArray.clear, hnull]
    rw [hclear]
    split
    · exact iff_of_true (.inr (.inr (.inl ‹_›))) (.inl (by simp))
    · simp only [hnull, ne_eq, not_true_eq_false, false_or]
      omega
  · refine iff_of_true (.inr (.inl hnull)) (.inl ?_)
    split
    · simp
    · exact hdata.mpr hnull

variable (mc : ModuleControl)

def started (m : Module) (data : Bytes) : ModuleControl :=
  (mc.reset (some m)).withHeader (data.take HeaderSize)

theorem exists_bytes (h : HeaderSize ≤ data.length) :
    ∃ module_id low high rest, data = module_id :: low :: high :: rest :=
  match data, h with
  | module_id :: low :: high :: rest, _ => ⟨module_id, low, high, rest, rfl⟩

theorem started_eq (m : Module) (h : HeaderSize ≤ data.length) :
    mc.started m data =
      { announced data with module := some m, values := mc.values.clear } := by
  obtain ⟨module_id, low, high, rest, rfl⟩ := exists_bytes h
  rfl

theorem decode_eq [Heap] (h : HeaderSize ≤ data.length)
    (hget : config.modules.get (announced data).module_id.toNat = some m) :
    mc.decode config (Cursor.ofList data) =
      (mc.started m data).decode_tail config ((Cursor.ofList data).advance HeaderSize) := by
  obtain ⟨module_id, low, high, rest, rfl⟩ := exists_bytes h
  have hread : (Cursor.ofList (module_id :: low :: high :: rest)).read HeaderSize =
      (some [module_id, low, high],
        (Cursor.ofList (module_id :: low :: high :: rest)).advance HeaderSize) :=
    Cursor.read_of_rest (show (Cursor.ofList (module_id :: low :: high :: rest)).rest =
      [module_id, low, high] ++ rest from rfl)
  rw [decode, bind_apply]
  change ((StateT.lift (some module_id) : Decode UInt8) >>= _) _ = _
  rw [bind_apply]
  change ((StateT.lift (config.modules.get module_id.toNat) : Decode Module) >>= _) _ = _
  rw [show config.modules.get module_id.toNat = some m from hget, bind_apply]
  change ((read HeaderSize : Decode _) >>= _) _ = _
  rw [bind_apply]
  show (some ((Cursor.ofList (module_id :: low :: high :: rest)).read HeaderSize)).bind _ = _
  rw [hread]
  rfl

-- What decides whether the part behind the header has a result.
theorem exists_decode_tail [Heap] (h : HeaderSize ≤ data.length)
    (hget : config.modules.get (announced data).module_id.toNat = some m) (buf : DecodeBuffer) :
    (∃ result, (mc.started m data).decode_tail config buf = some result) ↔
      (∃ inputs size, Visits m (announced data).carried inputs ∧
        DataValue.spans (inputs.map fun input => input.data_type) buf.rest = some size) ∧
          mc.HasRoom (announced data).carried.length := by
  have hids : (mc.started m data).input_ids = (announced data).input_ids := by
    rw [started_eq mc m h]
  have hclear : (mc.started m data).is_clear = (announced data).is_clear := by
    rw [is_clear, is_clear, hids]
  have hcarried : (mc.started m data).carried = (announced data).carried := by
    rw [carried, carried, hclear, hids]
  have hvalues : (mc.started m data).values = mc.values.clear := by rw [started_eq mc m h]
  have hid : (mc.started m data).module_id = (announced data).module_id := by
    rw [started_eq mc m h]
  rw [decode_tail, ← hcarried]
  by_cases hset : (mc.started m data).is_clear = true
  · rw [if_pos hset, show (mc.started m data).carried = [] from if_pos hset]
    exact iff_of_true ⟨_, rfl⟩ ⟨⟨[], 0, .nil, rfl⟩, .inl rfl⟩
  · rw [if_neg hset, filter_range_eq_carried (Bool.eq_false_iff.mpr hset), hid, hget, hvalues]
    cases hinputs : (mc.started m data).carried with
    | nil => exact iff_of_true ⟨_, rfl⟩ ⟨⟨[], 0, .nil, rfl⟩, .inl rfl⟩
    | cons id ids =>
        have hcount : (mc.started m data).get_num_values = (id :: ids).length := by
          rw [← length_carried, hinputs]
        have hpos : (id :: ids).length > 0 := Nat.succ_pos _
        rw [hcount, if_pos hpos, hasRoom_iff hpos]
        have hvalues := exists_decode_values (m := m) (id :: ids)
          (mc.values.clear.ensure_capacity (id :: ids).length) buf
        rw [or_iff_right (List.cons_ne_nil id ids)] at hvalues
        rw [← hvalues]
        constructor
        · rintro ⟨result, hrun⟩
          obtain ⟨module, middle, hlift, hrun⟩ := bind_eq_some_iff.mp hrun
          obtain ⟨values, last, hrun, -⟩ := bind_eq_some_iff.mp hrun
          obtain ⟨hmodule, rfl⟩ := lift_eq_some_iff.mp hlift
          obtain rfl := Option.some.inj hmodule
          exact ⟨_, hrun⟩
        · rintro ⟨⟨values, middle⟩, hrun⟩
          let out : ModuleControl :=
            { mc.started m data with module_id := (announced data).module_id, values }
          refine ⟨((.SUCCESS, out), middle), bind_eq_some_iff.mpr ⟨m, buf, rfl, ?_⟩⟩
          exact bind_eq_some_iff.mpr ⟨values, middle, hrun, rfl⟩

end Message

-- The inputs that a complete message has values for.
theorem visits_of_supplies {ids : List Nat} (hids : ∀ i ∈ ids, i < m.num_inputs.toNat)
    (h : Supplies m ids data) : ∃ inputs, Visits m ids inputs := by
  induction ids generalizing data with
  | nil => exact ⟨[], .nil⟩
  | cons id ids ih =>
      obtain ⟨input, hget, -, hrest⟩ := h
      obtain ⟨inputs, hvisits⟩ := ih (fun i hi => hids i (List.mem_cons_of_mem _ hi)) hrest
      exact ⟨input :: inputs, .cons ⟨hids id List.mem_cons_self, hget⟩ hvisits⟩

theorem Visits.exists_input {ids : List Nat} {inputs : List ModuleInput} (h : Visits m ids inputs) {i : Nat}
    (hi : i ∈ ids) : ∃ input ∈ inputs, m.inputs.get i = some input := by
  obtain ⟨j, hj, rfl⟩ := List.getElem_of_mem hi
  have hj' : j < inputs.length := h.length_eq ▸ hj
  exact ⟨_, List.getElem_mem hj', (h.get hj hj').2⟩

theorem Visits.exists_id {ids : List Nat} {inputs : List ModuleInput} (h : Visits m ids inputs)
    {input : ModuleInput} (hinput : input ∈ inputs) : ∃ i ∈ ids, m.inputs.get i = some input := by
  obtain ⟨j, hj, rfl⟩ := List.getElem_of_mem hinput
  have hj' : j < ids.length := h.length_eq ▸ hj
  exact ⟨_, List.getElem_mem hj', (h.get hj' hj).2⟩

-- Where all bytes are there, no count is left out, so that the reader stays in step with the values.
theorem countable_of_spans {ids : List Nat} {inputs : List ModuleInput} {size : Nat}
    (hvisits : Visits m ids inputs) (h : Supplies m ids data) (hlength : data.length < 2 ^ 64)
    (hspans : DataValue.spans (inputs.map fun input => input.data_type) data = some size) :
    ∀ input ∈ inputs, Countable input.data_type := by
  induction hvisits generalizing data size with
  | nil => exact fun input hinput => absurd hinput List.not_mem_nil
  | @cons id input ids inputs hname hvisits ih =>
      obtain ⟨input', hget, hroom, hrest⟩ := h
      obtain rfl := Option.some.inj (hname.2.symm.trans hget)
      obtain ⟨lead, own, more, hspan, hmore, -⟩ := DataValue.spans_cons_iff.mp hspans
      have hhead : Countable input.data_type ∧ lead + own = valueSize input.data_type data := by
        rw [valueSize] at hroom ⊢
        by_cases harray : input.data_type.is_array = true
        · simp only [if_pos harray] at hroom ⊢
          have hwidth : input.data_type.width.toNat ≤ 8 := by
            have hspan : DataValue.span input.data_type data = some (lead, own) := hspan
            rw [DataValue.span, if_pos harray, if_neg (by omega)] at hspan
            exact (Option.ite_none_right_eq_some.mp hspan).1
          rw [DataValue.span_of_supplied harray hlength hwidth hroom] at hspan
          obtain ⟨rfl, rfl⟩ := Prod.mk.inj (Option.some.inj hspan)
          exact ⟨fun _ => hwidth, rfl⟩
        · simp only [if_neg harray] at hroom ⊢
          rw [DataValue.span_of_scalar (fun h => absurd h harray) hroom] at hspan
          obtain ⟨rfl, rfl⟩ := Prod.mk.inj (Option.some.inj hspan)
          exact ⟨fun h => absurd h harray, Nat.zero_add _⟩
      rw [hhead.2] at hmore
      have hsmaller : (data.drop (valueSize input.data_type data)).length < 2 ^ 64 := by
        rw [List.length_drop]
        omega
      intro other hother
      cases List.mem_cons.mp hother with
      | inl hsame => exact hsame ▸ hhead.1
      | inr hother => exact ih hrest hsmaller hmore other hother

theorem carried_subset (mc : ModuleControl) : mc.carried ⊆ setInputs mc.input_ids := by
  rw [carried]
  split
  · exact List.nil_subset _
  · exact List.Subset.refl _

-- Since there is no failure to report, only complete bodies are safe, and of these the ones
-- that the counts and the array of values take.
theorem decodesSafely_iff_complete [Heap] (mc : ModuleControl) (config : Configuration) (data : Bytes) :
    mc.DecodesSafely config data ↔ Complete config data ∧ mc.Storable config data := by
  constructor
  · rintro ⟨-, r, out, buf, hrun, hr⟩
    have hcomplete : Complete config data := by
      by_contra hnot
      exact hr hnot (mc.yields_decode config _ _ _ hrun)
    refine ⟨hcomplete, ?_⟩
    obtain ⟨hsize, hlength, -, m, hget, -, hsupplies⟩ := hcomplete
    rw [mc.decode_eq hlength hget] at hrun
    obtain ⟨⟨inputs, taken, hvisits, hspans⟩, hroom⟩ :=
      (mc.exists_decode_tail hlength hget _).mp ⟨_, hrun⟩
    have hcount := countable_of_spans hvisits hsupplies
      (by rw [List.length_drop]; omega) hspans
    refine ⟨hroom, fun m' hget' i hi input hinput => ?_⟩
    obtain rfl := Option.some.inj (hget.symm.trans hget')
    obtain ⟨named, hnamed, hinput'⟩ := hvisits.exists_input hi
    exact Option.some.inj (hinput'.symm.trans hinput) ▸ hcount named hnamed
  · rintro ⟨hcomplete, hroom, hcount⟩
    obtain ⟨-, hlength, hmodule, m, hget, hids, hsupplies⟩ := id hcomplete
    obtain ⟨inputs, hvisits⟩ :=
      visits_of_supplies (fun i hi => hids i (carried_subset _ hi)) hsupplies
    obtain ⟨taken, hspans⟩ := exists_spans (inputs.map fun input => input.data_type)
      (fun data_type htype => by
        obtain ⟨input, hinput, rfl⟩ := List.mem_map.mp htype
        obtain ⟨i, hi, hget'⟩ := hvisits.exists_id hinput
        exact hcount m hget i hi input hget') (data.drop HeaderSize)
    obtain ⟨⟨⟨r, out⟩, buf⟩, hrun⟩ := (mc.exists_decode_tail hlength hget
      ((Cursor.ofList data).advance HeaderSize)).mpr ⟨⟨inputs, taken, hvisits, hspans⟩, hroom⟩
    refine ⟨fun module_id hhead => ?_, r, out, buf, ?_, fun hnot => absurd hcomplete hnot⟩
    · obtain ⟨first, low, high, rest, rfl⟩ := exists_bytes hlength
      exact Option.some.inj hhead ▸ hmodule
    · rw [mc.decode_eq hlength hget, hrun]

-- A node that has no configuration yet, and a message to its first module.
theorem unconfigured_not_decodesSafely :
    ¬∀ (config : Configuration) (data : Bytes), @DecodesSafely Heap.zeros empty config data := by
  intro h
  obtain ⟨hhead, -⟩ := h (Configuration.empty 0) [0x00, 0x01, 0x00]
  exact absurd (hhead 0x00 rfl) (by decide)

end ModuleControl

end RoboCrisp.Comms
