import RoboCrisp.Comms.ModuleControl.Lemmas
import RoboCrisp.Comms.NamedTyped.Lemmas

namespace RoboCrisp.Comms

open RoboCrisp.Stream RoboCrisp.Util

-- The bytes that a pair puts into a message, and the room that they need in its block.
def ValuePair.bytes (pair : ValuePair) : Bytes :=
  pair.value.value.take pair.value.data_type.width.toNat

def ValuePair.Loadable (pair : ValuePair) : Prop :=
  pair.value.data_type.width.toNat ≤ pair.value.value.length

theorem ValuePair.Loadable.load_eq {pair : ValuePair} (h : pair.Loadable) :
    load pair.value.value pair.value.data_type.width.toNat = some pair.bytes := if_pos h

theorem ValuePair.Loadable.length_bytes {pair : ValuePair} (h : pair.Loadable) :
    pair.bytes.length = pair.value.get_encoded_size := List.length_take_of_le h

-- A value for one of `inputs`, in a block of just its width.
def Fitting (inputs : List ModuleInput) (pair : ValuePair) : Prop :=
  ∃ input ∈ inputs, pair.input = some input ∧ pair.value.data_type = input.data_type ∧
    pair.value.value.length = input.data_type.width.toNat

theorem Fitting.loadable {inputs : List ModuleInput} {pair : ValuePair} (h : Fitting inputs pair) :
    pair.Loadable := by
  obtain ⟨input, -, -, htype, hlength⟩ := h
  rw [ValuePair.Loadable, htype, hlength]

theorem Fitting.bytes_eq {inputs : List ModuleInput} {pair : ValuePair} (h : Fitting inputs pair) :
    pair.bytes = pair.value.value := by
  obtain ⟨input, -, -, htype, hlength⟩ := h
  rw [ValuePair.bytes, htype, ← hlength, List.take_length]

-- The inputs that a module has, as many as it counts.
structure Module.Keeps (m : Module) (inputs : List ModuleInput) : Prop where
  contains : m.inputs.Contains inputs
  num_inputs : m.num_inputs.toNat = inputs.length

-- They stand at the index of their ids.
structure Module.Indexed (m : Module) (inputs : List ModuleInput) : Prop extends m.Keeps inputs where
  input_id : ∀ (j : Nat) (input : ModuleInput), inputs[j]? = some input → input.input_id.toNat = j

-- They have a name and, if their ids are below their number, a bit in the mask.
structure Module.Labelled (m : Module) (inputs : List ModuleInput) : Prop extends m.Keeps inputs where
  le_max : inputs.length ≤ MAX_INPUTS
  names : ∀ input ∈ inputs, ∃ chars, NameIs input.name input.name_length chars

-- A module that a message can address: every input has a bit in the mask, and stands at
-- the index of its id.
structure Module.Addressable (m : Module) (inputs : List ModuleInput) : Prop
    extends m.Indexed inputs, m.Labelled inputs

-- A module whose inputs have bits of their own, whatever the order in which they stand.
structure Module.Identified (m : Module) (inputs : List ModuleInput) : Prop extends m.Labelled inputs where
  id_lt : ∀ input ∈ inputs, input.input_id.toNat < inputs.length
  nodup : (inputs.map ModuleInput.input_id).Nodup

-- A module that a message can address, without arrays.
structure Module.Controllable (m : Module) (inputs : List ModuleInput) : Prop
    extends m.Addressable inputs where
  not_array : ∀ input ∈ inputs, input.data_type.is_array = false

-- A value that arrives in the form in which it is sent.
def ValuePair.Scalar (pair : ValuePair) : Prop :=
  pair.value.data_type.is_array = true → pair.value.data_type.width.toNat = 0

namespace Module.Indexed

variable {m : Module} {inputs : List ModuleInput}

theorem id_lt (h : m.Indexed inputs) {input : ModuleInput} (hinput : input ∈ inputs) :
    input.input_id.toNat < inputs.length := by
  obtain ⟨j, hj, rfl⟩ := List.getElem_of_mem hinput
  rw [h.input_id j _ (List.getElem?_eq_getElem hj)]
  exact hj

theorem id_lt_num_inputs (h : m.Indexed inputs) {input : ModuleInput} (hinput : input ∈ inputs) :
    input.input_id < m.num_inputs := by
  rw [UInt8.lt_iff_toNat_lt, h.num_inputs]
  exact h.id_lt hinput

theorem getElem?_id (h : m.Indexed inputs) {input : ModuleInput} (hinput : input ∈ inputs) :
    inputs[input.input_id.toNat]? = some input := by
  obtain ⟨j, hj, rfl⟩ := List.getElem_of_mem hinput
  rw [h.input_id j _ (List.getElem?_eq_getElem hj), List.getElem?_eq_getElem hj]

theorem eq_of_id (h : m.Indexed inputs) {first second : ModuleInput} (hfirst : first ∈ inputs)
    (hsecond : second ∈ inputs) (hid : first.input_id.toNat = second.input_id.toNat) :
    first = second := by
  have hget := h.getElem?_id hfirst
  rw [hid, h.getElem?_id hsecond] at hget
  exact (Option.some.inj hget).symm

end Module.Indexed

namespace Module.Addressable

variable {m : Module} {inputs : List ModuleInput}

theorem identified (h : m.Addressable inputs) : m.Identified inputs := by
  refine ⟨h.toLabelled, fun _ hinput => h.toIndexed.id_lt hinput, ?_⟩
  refine List.Nodup.map_on (fun first hfirst second hsecond hid => ?_) ?_
  · exact h.toIndexed.eq_of_id hfirst hsecond (congrArg UInt8.toNat hid)
  · refine List.nodup_iff_getElem?_ne_getElem?.mpr fun i j hij hj heq => ?_
    have hi := h.input_id i _ (List.getElem?_eq_getElem (hij.trans hj))
    have hj' := h.input_id j _ (List.getElem?_eq_getElem hj)
    rw [List.getElem?_eq_getElem (hij.trans hj), List.getElem?_eq_getElem hj] at heq
    rw [Option.some.inj heq] at hi
    omega

end Module.Addressable

namespace Module.Identified

variable {m : Module} {inputs : List ModuleInput}

theorem eq_of_id (h : m.Identified inputs) {first second : ModuleInput} (hfirst : first ∈ inputs)
    (hsecond : second ∈ inputs) (hid : first.input_id.toNat = second.input_id.toNat) :
    first = second :=
  List.inj_on_of_nodup_map h.nodup hfirst hsecond (UInt8.toNat_inj.mp hid)

-- The id of an input is one that can be shifted to, and stays below the clear bit.
theorem addresses (h : m.Identified inputs) {input : ModuleInput} (hinput : input ∈ inputs) :
    input.input_id < m.num_inputs ∧ input.input_id.toNat < 15 := by
  have hlt := h.id_lt input hinput
  have hmax : inputs.length ≤ 15 := h.le_max
  refine ⟨?_, by omega⟩
  rwa [UInt8.lt_iff_toNat_lt, h.num_inputs]

end Module.Identified

namespace ModuleControl

variable {mc : ModuleControl} {pairs : List ValuePair} {Good : ValuePair → Prop}

theorem length_header (mc : ModuleControl) : mc.header.length = HeaderSize := by
  rw [header, List.length_cons, length_littleEndian]
  rfl

section Encoding

def pieces (mc : ModuleControl) (pairs : List ValuePair) : List (Piece UInt8) :=
  ⟨mc.header, false⟩ :: pairs.map fun pair => ⟨pair.bytes, true⟩

def encoding (mc : ModuleControl) (pairs : List ValuePair) : Bytes :=
  mc.header ++ pairs.flatMap ValuePair.bytes

theorem wire_pieces (mc : ModuleControl) (pairs : List ValuePair) :
    wire (mc.pieces pairs) = mc.encoding pairs := by
  rw [pieces, wire_cons, encoding]
  congr 1
  induction pairs with
  | nil => rfl
  | cons pair pairs ih => rw [List.map_cons, wire_cons, ih, List.flatMap_cons]

theorem emits_encode_values {values : SArray ValuePair} (front : List ValuePair)
    (hholds : values.Holds (front ++ pairs)) (hload : ∀ pair ∈ pairs, pair.Loadable) :
    Emits (encode_values values (List.range' front.length pairs.length))
      (pairs.map fun pair => ⟨pair.bytes, true⟩) := by
  induction pairs generalizing front with
  | nil => exact Encoder.Emits.pure
  | cons pair pairs ih =>
      have hrest := ih (front ++ [pair]) (by simpa using hholds)
        fun pair hpair => hload pair (List.mem_cons_of_mem _ hpair)
      rw [List.length_append, List.length_singleton] at hrest
      have hencode : pair.value.encode = write pair.bytes := by
        rw [DataValue.encode, (hload pair List.mem_cons_self).load_eq]
        rfl
      have hstep : encode_values values (List.range' front.length (pair :: pairs).length) =
          (write pair.bytes).andThen
            (encode_values values (List.range' (front.length + 1) pairs.length)) := by
        rw [List.length_cons, List.range'_succ, encode_values, hholds.get_middle, ← hencode]
        rfl
      rw [hstep]
      exact Emits.andThen (Encoder.Emits.write _) hrest

theorem Carries.emits (h : mc.Carries Good pairs) (hload : ∀ pair ∈ pairs, pair.Loadable) :
    Emits mc.encode (mc.pieces pairs) := by
  refine Encoder.Emits.write_ignored _ ?_
  have hlength := h.length_eq
  by_cases hclear : mc.is_clear = true
  · have hnil : pairs = [] := by
      rw [get_num_values, if_pos hclear] at hlength
      exact List.length_eq_zero_iff.mp hlength
    rw [if_pos hclear, hnil]
    exact Encoder.Emits.pure
  · rw [if_neg hclear, ← hlength, List.range_eq_range']
    exact emits_encode_values [] h.1 hload

theorem sum_values {values : SArray ValuePair} (front : List ValuePair)
    (hholds : values.Holds (front ++ pairs)) (hload : ∀ pair ∈ pairs, pair.Loadable) (out : Nat) :
    (List.range' front.length pairs.length).foldlM (fun out i => do
      let pair ← values.get i
      return out + pair.value.get_encoded_size) out =
        some (out + (pairs.flatMap ValuePair.bytes).length) := by
  induction pairs generalizing front out with
  | nil => rfl
  | cons pair pairs ih =>
      have hrest := ih (front ++ [pair]) (by simpa using hholds)
        (fun pair hpair => hload pair (List.mem_cons_of_mem _ hpair))
        (out + pair.value.get_encoded_size)
      rw [List.length_append, List.length_singleton] at hrest
      rw [List.length_cons, List.range'_succ, List.foldlM_cons, hholds.get_middle]
      refine hrest.trans ?_
      rw [List.flatMap_cons, List.length_append, (hload pair List.mem_cons_self).length_bytes,
        Nat.add_assoc]

theorem Carries.get_encoded_size_eq (h : mc.Carries Good pairs)
    (hload : ∀ pair ∈ pairs, pair.Loadable) :
    mc.get_encoded_size = some (mc.encoding pairs).length := by
  rw [get_encoded_size, ← h.length_eq, List.range_eq_range', encoding, List.length_append,
    length_header]
  exact sum_values [] h.1 hload HeaderSize

end Encoding

section Decoding

variable {m : Module} {inputs : List ModuleInput}

theorem consumes_decode_value [Heap] {data_type : DataDeclaration} {value : Bytes}
    (hscalar : data_type.is_array = true → data_type.width.toNat = 0)
    (hlength : value.length = data_type.width.toNat) :
    Decoder.Consumes (DataValue.decode data_type) value ⟨data_type, value⟩ := by
  -- the count of an array without width is not read either
  have hcount : Decoder.Consumes (DataValue.decode_count data_type) [] 1 := by
    rw [DataValue.decode_count]
    split
    · rename_i harray
      rw [hscalar harray]
      exact (Decoder.Consumes.read rfl).bind_last (Decoder.Consumes.pure _)
    · exact Decoder.Consumes.pure 1
  have hsize : 1 * data_type.width.toNat % 2 ^ 64 = value.length := by
    have hlt := data_type.width.isLt
    rw [Nat.one_mul, Nat.mod_eq_of_lt (by omega), hlength]
  rw [DataValue.decode]
  refine hcount.bind_nil (Decoder.Consumes.get fun cursor hroom => ?_)
  rw [if_pos (by rwa [← hlength]), hsize]
  exact (Decoder.Consumes.read rfl).bind_last (Decoder.Consumes.pure _)

-- The first id is that of the input which the first pair is for.
theorem exists_of_keys {pair : ValuePair} {ids : List Nat} (hfits : Fitting inputs pair)
    (hkeys : (pair :: pairs).map ValuePair.key = ids.map some) :
    ∃ input rest, ids = input.input_id.toNat :: rest ∧ pairs.map ValuePair.key = rest.map some ∧
      input ∈ inputs ∧ pair.input = some input ∧ pair.value.data_type = input.data_type ∧
      pair.value.value.length = input.data_type.width.toNat := by
  obtain ⟨input, hmem, hinput, htype, hlength⟩ := hfits
  cases ids with
  | nil => exact absurd hkeys (by simp)
  | cons id ids =>
      obtain ⟨hhead, htail⟩ := List.cons.inj hkeys
      rw [ValuePair.key, hinput] at hhead
      exact ⟨input, ids, congrArg (· :: ids) (Option.some.inj hhead).symm, htail, hmem, hinput, htype,
        hlength⟩

-- Each value is read into the pair that it has been written from.
theorem consumes_decode_values [Heap] (hm : m.Indexed inputs)
    (hgood : ∀ pair ∈ pairs, Fitting inputs pair) (hscalar : ∀ pair ∈ pairs, pair.Scalar)
    {ids : List Nat} (hkeys : pairs.map ValuePair.key = ids.map some) {values : SArray ValuePair}
    {front : List ValuePair} (hholds : values.Holds front) :
    ∃ values', Decoder.Consumes (decode_values m ids values) (pairs.flatMap ValuePair.bytes)
      values' ∧ values'.Holds (front ++ pairs) := by
  induction pairs generalizing ids values front with
  | nil =>
      obtain rfl : ids = [] := List.map_eq_nil_iff.mp hkeys.symm
      exact ⟨values, Decoder.Consumes.pure values, by simpa using hholds⟩
  | cons pair pairs ih =>
      have hfits := hgood pair List.mem_cons_self
      obtain ⟨input, ids, rfl, htail, hmem, hinput, htype, hlength⟩ := exists_of_keys hfits hkeys
      have hpair : pair = ⟨some input, ⟨input.data_type, pair.value.value⟩⟩ := by
        rw [← hinput, ← htype]
      obtain ⟨pushed, hpush, hpushed⟩ := hholds.push pair
      obtain ⟨values', hrest, hvalues'⟩ := ih
        (fun pair hpair => hgood pair (List.mem_cons_of_mem _ hpair))
        (fun pair hpair => hscalar pair (List.mem_cons_of_mem _ hpair)) htail hpushed
      refine ⟨values', ?_, by simpa using hvalues'⟩
      rw [decode_values, if_pos (by rw [hm.num_inputs]; exact hm.id_lt hmem), hm.contains.get,
        hm.getElem?_id hmem, List.flatMap_cons, hfits.bytes_eq]
      refine (Decoder.Consumes.lift rfl).bind_nil ?_
      refine (consumes_decode_value (htype ▸ hscalar pair List.mem_cons_self) hlength).bind ?_
      rw [← hpair]
      exact (Decoder.Consumes.lift hpush).bind_nil hrest

theorem withHeader_header (target mc : ModuleControl) : target.withHeader mc.header =
    { target with module_id := mc.module_id, input_ids := mc.input_ids } := by
  have hids : BitVec.ofNat 16 (ofLittleEndian (littleEndian 2 mc.input_ids.toNat)) =
      mc.input_ids := by
    rw [ofLittleEndian_littleEndian_of_lt mc.input_ids.isLt, BitVec.ofNat_toNat,
      BitVec.setWidth_eq]
  rw [header, withHeader, hids]

-- The bits that decode goes through are those of the values the message carries.
theorem filter_range_eq_carried (hclear : mc.is_clear = false) :
    (List.range 16).filter mc.input_ids.getLsbD = mc.carried := by
  have hlast : ¬mc.input_ids.getLsbD 15 = true := Bool.eq_false_iff.mp hclear
  rw [carried, if_neg (Bool.eq_false_iff.mp hclear), List.range_succ, List.filter_append, List.filter_cons_of_neg hlast,
    List.filter_nil, List.append_nil, setInputs]

-- A clear message has no values behind its header, whatever the object holds.
theorem carries_of_is_clear (h : mc.is_clear = true) :
    ({ mc with values := .alloc 0 } : ModuleControl).Carries (Fitting inputs) [] := by
  have hclear : ({ mc with values := .alloc 0 } : ModuleControl).is_clear = true := h
  refine ⟨SArray.holds_alloc 0, ?_, fun pair hpair => absurd hpair List.not_mem_nil⟩
  rw [carried, if_pos hclear]
  rfl

theorem Carries.consumes_decode_tail [Heap] (h : mc.Carries (Fitting inputs) pairs)
    {config : Configuration} (hget : config.modules.get mc.module_id.toNat = some m)
    (hm : m.Indexed inputs) (hscalar : ∀ pair ∈ pairs, pair.Scalar) {started : ModuleControl} (hstarted : started.values.Holds [])
    (hid : started.module_id = mc.module_id) (hids : started.input_ids = mc.input_ids) :
    ∃ values, Decoder.Consumes (started.decode_tail config) (pairs.flatMap ValuePair.bytes)
      (.SUCCESS, { started with values }) ∧ values.Holds pairs := by
  have hsame : started.is_clear = mc.is_clear := by rw [is_clear, is_clear, hids]
  rw [decode_tail, hsame]
  cases hclear : mc.is_clear with
  | true =>
      have hkeys := h.2.1
      rw [carried, if_pos hclear] at hkeys
      obtain rfl : pairs = [] := List.map_eq_nil_iff.mp hkeys
      exact ⟨started.values, Decoder.Consumes.pure _, hstarted⟩
  | false =>
      have hgrown : (if started.get_num_values > 0 then
          started.values.ensure_capacity started.get_num_values else started.values).Holds [] := by
        split
        · exact (hstarted.ensure_capacity _).1
        · exact hstarted
      obtain ⟨values, hvalues, hholds⟩ := consumes_decode_values hm h.2.2 hscalar h.2.1 hgrown
      refine ⟨values, ?_, hholds⟩
      rw [if_neg Bool.false_ne_true, hids, filter_range_eq_carried hclear, hid, hget]
      cases hcarried : mc.carried with
      | nil =>
          rw [hcarried] at hvalues
          exact hvalues.bind_last (Decoder.Consumes.pure _)
      | cons id ids =>
          rw [hcarried] at hvalues
          exact (Decoder.Consumes.lift rfl).bind_nil (hvalues.bind_last (Decoder.Consumes.pure _))

theorem consumes_read_header [Heap] {config : Configuration} {target : ModuleControl} {bytes : Bytes}
    {result : DecodeResult × ModuleControl}
    (htail : Decoder.Consumes ((target.withHeader mc.header).decode_tail config) bytes result) :
    Decoder.Consumes (do
      match ← read HeaderSize with
      | none => target.decode_tail config
      | some bytes => (target.withHeader bytes).decode_tail config) (mc.header ++ bytes) result :=
  (Decoder.Consumes.read (length_header mc)).bind htail

theorem Carries.consumes_decode [Heap] (h : mc.Carries (Fitting inputs) pairs)
    {config : Configuration} (hget : config.modules.get mc.module_id.toNat = some m)
    (hm : m.Indexed inputs) (hscalar : ∀ pair ∈ pairs, pair.Scalar) {target : ModuleControl} {old : List ValuePair}
    (hold : target.values.Holds old) :
    ∃ out, Decoder.Consumes (target.decode config) (mc.encoding pairs) (.SUCCESS, out) ∧
      out.module = some m ∧ out.module_id = mc.module_id ∧ out.input_ids = mc.input_ids ∧
      out.values.Holds pairs := by
  have hstarted := withHeader_header (target.reset (some m)) mc
  obtain ⟨values, htail, hholds⟩ := h.consumes_decode_tail hget hm hscalar
    (show ((target.reset (some m)).withHeader mc.header).values.Holds [] by
      rw [hstarted]; exact hold.clear) (by rw [hstarted]) (by rw [hstarted])
  refine ⟨{ (target.reset (some m)).withHeader mc.header with values }, fun cursor back hrest => ?_,
    by rw [hstarted]; rfl, by rw [hstarted], by rw [hstarted], hholds⟩
  have hhead : cursor.rest.head? = some mc.module_id := by
    rw [hrest]
    rfl
  rw [decode, bind_apply]
  change ((StateT.lift cursor.rest.head? : Decode UInt8) >>= _) cursor = _
  rw [hhead]
  exact (Decoder.Consumes.lift rfl).bind_nil ((Decoder.Consumes.lift hget).bind_nil
    (consumes_read_header htail)) cursor back hrest

-- What comes out of the encoding of a message without arrays.
theorem Carries.exists_copy [Heap] (h : mc.Carries (Fitting inputs) pairs) {config : Configuration}
    (hget : config.modules.get mc.module_id.toNat = some m) (hm : m.Indexed inputs)
    (hscalar : ∀ pair ∈ pairs, pair.Scalar) :
    ∃ out, Decoder.Consumes (decode_copy config) (mc.encoding pairs) out ∧ out.module = some m ∧
      out.module_id = mc.module_id ∧ out.input_ids = mc.input_ids ∧ out.values.Holds pairs := by
  have hempty : empty.values.Holds [] := SArray.holds_alloc 0
  obtain ⟨out, hdecode, hout⟩ := h.consumes_decode hget hm hscalar hempty
  exact ⟨out, hdecode.bind_last (Decoder.Consumes.pure _), hout⟩

end Decoding

end ModuleControl

end RoboCrisp.Comms
