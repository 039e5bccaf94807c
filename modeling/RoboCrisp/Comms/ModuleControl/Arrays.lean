import RoboCrisp.Comms.ModuleControl.RoundTrip
import RoboCrisp.Comms.ModuleControl.Safety

namespace RoboCrisp.Comms

open RoboCrisp.Stream RoboCrisp.Util

-- An array value is sent without a count but read with one. What is read as its elements is
-- missing for the values behind it, so that not all of them can come out as they were sent.
-- The argument counts the bytes that are not zero.

def nonzero (bytes : Bytes) : Nat := bytes.countP (· ≠ 0)

theorem nonzero_append (front back : Bytes) : nonzero (front ++ back) = nonzero front + nonzero back :=
  List.countP_append

theorem nonzero_replicate (size : Nat) : nonzero (List.replicate size 0) = 0 := by
  rw [nonzero, List.countP_eq_zero]
  intro byte hbyte
  rw [List.eq_of_mem_replicate hbyte]
  decide

theorem nonzero_take_le (bytes : Bytes) (size : Nat) : nonzero (bytes.take size) ≤ nonzero bytes :=
  (List.take_sublist size bytes).countP_le

theorem alloc_zeros (size : Nat) : @Heap.alloc Heap.zeros size = List.replicate size 0 := by
  simp [Heap.alloc, Heap.fresh]

theorem ofLittleEndian_of_nonzero {bytes : Bytes} (h : nonzero bytes = 0) : ofLittleEndian bytes = 0 := by
  induction bytes with
  | nil => rfl
  | cons byte rest ih =>
      rw [nonzero, List.countP_cons] at h
      have hrest : nonzero rest = 0 := by
        rw [nonzero]
        omega
      have hbyte : byte = 0 := by
        by_contra hne
        simp [hne] at h
      rw [ofLittleEndian, ih hrest, hbyte]
      rfl

-- What a count that has been read over the lowest bytes leaves of the one that was there.
theorem nonzero_default {width : Nat} (hpos : 0 < width) : nonzero ((littleEndian 8 1).drop width) = 0 := by
  obtain ⟨n, rfl⟩ : ∃ n, width = n + 1 := ⟨width - 1, by omega⟩
  have hzeros : nonzero ((littleEndian 8 1).drop 1) = 0 := by decide
  have hsub : (littleEndian 8 1).drop (n + 1) = ((littleEndian 8 1).drop 1).drop n := by
    rw [List.drop_drop, Nat.add_comm]
  rw [hsub]
  exact Nat.le_zero.mp (hzeros ▸ (List.drop_sublist n _).countP_le)

namespace DataValue

variable {data_type : DataDeclaration} {buf buf' : DecodeBuffer} {dv : DataValue}

-- What the elements of a value are taken from, in memory that is full of zeros.
theorem decode_spends (h : @decode Heap.zeros data_type buf = some (dv, buf')) :
    ∃ count middle eaten, decode_count data_type buf = some (count, middle) ∧
      middle.rest = eaten ++ buf'.rest ∧ nonzero dv.value ≤ nonzero eaten ∧
      dv.value.length = count * data_type.width.toNat % 2 ^ 64 ∧ dv.data_type = data_type := by
  obtain ⟨count, middle, hcount, h⟩ := bind_eq_some_iff.mp h
  refine ⟨count, middle, ?_⟩
  obtain ⟨_, _, hget, h⟩ := bind_eq_some_iff.mp h
  obtain ⟨rfl, rfl⟩ := Prod.mk.inj (Option.some.inj hget)
  by_cases hroom : data_type.width.toNat ≤ middle.length - middle.offset
  · rw [if_pos hroom] at h
    obtain ⟨bytes, last, hread, h⟩ := bind_eq_some_iff.mp h
    have hread : middle.read (count * data_type.width.toNat % 2 ^ 64) = (bytes, last) :=
      Option.some.inj hread
    rw [Cursor.read, Cursor.length_sub_offset] at hread
    split at hread
    · obtain ⟨rfl, rfl⟩ := Prod.mk.inj hread
      obtain ⟨rfl, rfl⟩ := Prod.mk.inj (pure_eq_some_iff.mp h)
      refine ⟨[], hcount, rfl, ?_, by simp, rfl⟩
      rw [alloc_zeros, nonzero_replicate]
      exact Nat.zero_le _
    · obtain ⟨rfl, rfl⟩ := Prod.mk.inj hread
      obtain ⟨rfl, rfl⟩ := Prod.mk.inj (pure_eq_some_iff.mp h)
      refine ⟨_, hcount, (List.take_append_drop _ _).symm, Nat.le_refl _, ?_, rfl⟩
      exact List.length_take_of_le (by omega)
  · rw [if_neg hroom] at h
    obtain ⟨rfl, rfl⟩ := Prod.mk.inj (pure_eq_some_iff.mp h)
    refine ⟨[], hcount, rfl, ?_, by simp, rfl⟩
    rw [nonzero_replicate]
    exact Nat.zero_le _

theorem decode_count_spends {count : Nat} (h : decode_count data_type buf = some (count, buf')) :
    ∃ eaten, buf.rest = eaten ++ buf'.rest := by
  rw [decode_count] at h
  split at h
  · obtain ⟨bytes, last, hread, h⟩ := bind_eq_some_iff.mp h
    have hread : buf.read data_type.width.toNat = (bytes, last) := Option.some.inj hread
    rw [Cursor.read] at hread
    split at hread
    · obtain ⟨rfl, rfl⟩ := Prod.mk.inj hread
      obtain ⟨-, rfl⟩ := Prod.mk.inj (pure_eq_some_iff.mp h)
      exact ⟨[], rfl⟩
    · obtain ⟨rfl, rfl⟩ := Prod.mk.inj hread
      by_cases hwidth : data_type.width.toNat ≤ 8
      · simp only [if_pos hwidth] at h
        obtain ⟨-, rfl⟩ := Prod.mk.inj (pure_eq_some_iff.mp h)
        exact ⟨_, (List.take_append_drop _ _).symm⟩
      · simp only [if_neg hwidth] at h
        exact absurd (lift_eq_some_iff.mp h).1 (by simp)
  · obtain ⟨-, rfl⟩ := Prod.mk.inj (pure_eq_some_iff.mp h)
    exact ⟨[], rfl⟩

-- The count of an array whose sent bytes come next.
theorem decode_count_array {value back : Bytes} {count : Nat} (harray : data_type.is_array = true)
    (hvalue : value.length = data_type.width.toNat) (hpos : 0 < data_type.width.toNat)
    (hrest : buf.rest = value ++ back) (h : decode_count data_type buf = some (count, buf')) :
    buf'.rest = back ∧ (nonzero value = 0 → count = 0) := by
  rw [decode_count, if_pos harray] at h
  obtain ⟨bytes, last, hread, h⟩ := bind_eq_some_iff.mp h
  have hread : buf.read data_type.width.toNat = (bytes, last) := Option.some.inj hread
  rw [← hvalue, Cursor.read_of_rest hrest] at hread
  obtain ⟨rfl, rfl⟩ := Prod.mk.inj hread
  by_cases hwidth : data_type.width.toNat ≤ 8
  · simp only [if_pos hwidth] at h
    obtain ⟨rfl, rfl⟩ := Prod.mk.inj (pure_eq_some_iff.mp h)
    refine ⟨by rw [Cursor.rest_advance, hrest, List.drop_left], fun hzero => ?_⟩
    apply ofLittleEndian_of_nonzero
    rw [nonzero_append, hzero, nonzero_default (by omega)]
  · simp only [if_neg hwidth] at h
    exact absurd (lift_eq_some_iff.mp h).1 (by simp)

-- Every value that comes out as it was sent takes up at least as much as was sent for it.
theorem spends_of_same {value : Bytes} (h : @decode Heap.zeros data_type buf = some (dv, buf'))
    (hsame : load dv.value data_type.width.toNat = some value) :
    nonzero value + nonzero buf'.rest ≤ nonzero buf.rest := by
  obtain ⟨count, middle, eaten, hcount, hrest, hvalue, -, -⟩ := decode_spends h
  obtain ⟨front, hfront⟩ := decode_count_spends hcount
  have hle : nonzero value ≤ nonzero dv.value := by
    rw [load] at hsame
    split at hsame
    · rw [← Option.some.inj hsame]
      exact nonzero_take_le _ _
    · exact absurd hsame (by simp)
  rw [hfront, nonzero_append, hrest, nonzero_append]
  omega

-- An array takes up more than that.
theorem array_spends_more {value back : Bytes} (harray : data_type.is_array = true)
    (hvalue : value.length = data_type.width.toNat) (hpos : 0 < data_type.width.toNat)
    (hbuf : buf.rest = value ++ back) (h : @decode Heap.zeros data_type buf = some (dv, buf'))
    (hsame : load dv.value data_type.width.toNat = some value) :
    nonzero buf'.rest < nonzero back := by
  obtain ⟨count, middle, eaten, hcount, hrest, heaten, hlength, -⟩ := decode_spends h
  obtain ⟨hback, hzero⟩ := decode_count_array harray hvalue hpos hbuf hcount
  rw [load] at hsame
  split at hsame
  · rename_i hroom
    have hle : nonzero value ≤ nonzero dv.value := by
      rw [← Option.some.inj hsame]
      exact nonzero_take_le _ _
    have hne : nonzero value ≠ 0 := by
      intro hnone
      rw [hzero hnone, Nat.zero_mul] at hlength
      omega
    rw [← hback, hrest, nonzero_append]
    omega
  · exact absurd hsame (by simp)

-- Values that compare equal have the same bytes where the comparison looks.
theorem load_of_eq {out dv : DataValue} {value : Bytes} (htype : out.data_type = dv.data_type)
    (hload : load dv.value dv.data_type.width.toNat = some value) (h : out.eq dv = some true) :
    load out.value dv.data_type.width.toNat = some value := by
  rw [DataValue.eq] at h
  split at h
  · obtain ⟨a, ha, h⟩ := Option.bind_eq_some_iff.mp h
    obtain ⟨b, hb, h⟩ := Option.bind_eq_some_iff.mp h
    rw [htype] at ha hb
    rw [hload] at hb
    obtain rfl := Option.some.inj hb
    rw [ha, of_decide_eq_true (Option.some.inj h)]
  · exact absurd (Option.some.inj h) Bool.false_ne_true

end DataValue

namespace ModuleControl

variable {m : Module} {inputs : List ModuleInput} {pairs : List ValuePair} {buf buf' : DecodeBuffer}

theorem load_of_eq {out pair : ValuePair} (htype : out.value.data_type = pair.value.data_type)
    (hload : pair.Loadable) (h : out.eq pair = some true) :
    load out.value.value pair.value.data_type.width.toNat = some pair.bytes := by
  obtain ⟨first, -, h⟩ := Option.bind_eq_some_iff.mp h
  obtain ⟨second, -, h⟩ := Option.bind_eq_some_iff.mp h
  obtain ⟨same, -, h⟩ := Option.bind_eq_some_iff.mp h
  split at h
  · exact DataValue.load_of_eq htype hload.load_eq h
  · exact absurd (Option.some.inj h) Bool.false_ne_true

-- From less than what was sent not all values can be read as they were sent, and from all that
-- was sent only when there is no array.
theorem scalar_of_same (hm : m.Indexed inputs) (hgood : ∀ pair ∈ pairs, Fitting inputs pair)
    {ids : List Nat} (hkeys : pairs.map ValuePair.key = ids.map some) {values values' : SArray ValuePair}
    {front : List ValuePair} (hholds : values.Holds front)
    (hrun : @decode_values Heap.zeros m ids values buf = some (values', buf')) :
    ∃ outs, values'.Holds (front ++ outs) ∧ List.Forall₂ (fun out pair : ValuePair =>
        out.input = pair.input ∧ out.value.data_type = pair.value.data_type) outs pairs ∧
      (List.Forall₂ (fun out pair : ValuePair =>
          load out.value.value pair.value.data_type.width.toNat = some pair.bytes) outs pairs →
        nonzero (pairs.flatMap ValuePair.bytes) ≤ nonzero buf.rest ∧
          (buf.rest = pairs.flatMap ValuePair.bytes → ∀ pair ∈ pairs, pair.Scalar)) := by
  induction pairs generalizing ids values front buf with
  | nil =>
      obtain rfl : ids = [] := List.map_eq_nil_iff.mp hkeys.symm
      obtain ⟨rfl, rfl⟩ := Prod.mk.inj (Option.some.inj hrun)
      exact ⟨[], by simpa using hholds, .nil, fun _ => ⟨Nat.zero_le _, fun _ pair hpair =>
        absurd hpair List.not_mem_nil⟩⟩
  | cons pair pairs ih =>
      have hfits := hgood pair List.mem_cons_self
      have hbytes := hfits.bytes_eq
      obtain ⟨input, ids, rfl, htail, hmem, hinput, htype, hlength⟩ := exists_of_keys hfits hkeys
      obtain ⟨-, input', dv, middle, pushed, hget, hdecode, hpush, hrun⟩ :=
        (@decode_values_cons_iff _ Heap.zeros _ _ _ _ _).mp hrun
      rw [hm.contains.get, hm.getElem?_id hmem] at hget
      obtain rfl := Option.some.inj hget
      obtain ⟨pushed', hpush', hpushed⟩ := hholds.push (⟨some input, dv⟩ : ValuePair)
      obtain rfl := Option.some.inj (hpush.symm.trans hpush')
      obtain ⟨outs, houts, hpairs, hrest⟩ := ih
        (fun pair hpair => hgood pair (List.mem_cons_of_mem _ hpair)) htail hpushed hrun
      have hdv : dv.data_type = input.data_type := by
        obtain ⟨_, _, _, -, -, -, -, hdv⟩ := DataValue.decode_spends hdecode
        exact hdv
      refine ⟨⟨some input, dv⟩ :: outs, by simpa using houts,
        .cons ⟨hinput.symm, hdv.trans htype.symm⟩ hpairs, fun hsame => ?_⟩
      obtain ⟨hvalue, hrests⟩ := List.forall₂_cons.mp hsame
      obtain ⟨hle, hscalar⟩ := hrest hrests
      rw [htype] at hvalue
      have hspent := DataValue.spends_of_same hdecode hvalue
      rw [List.flatMap_cons, nonzero_append]
      refine ⟨by omega, fun hbuf => ?_⟩
      have hpair : pair.Scalar := by
        intro harray
        by_contra hpos
        rw [htype] at harray hpos
        have hlength' : pair.bytes.length = input.data_type.width.toNat := by
          rw [hbytes, hlength]
        have hmore := DataValue.array_spends_more harray hlength' (by omega) hbuf hdecode hvalue
        omega
      have hall : middle.rest = pairs.flatMap ValuePair.bytes := by
        have hconsumes := @consumes_decode_value Heap.zeros input.data_type pair.bytes
          (htype ▸ hpair) (by rw [hbytes, hlength]) buf _ hbuf
        obtain ⟨-, rfl⟩ := Prod.mk.inj (Option.some.inj (hdecode.symm.trans hconsumes))
        rw [Cursor.rest_advance, hbuf, List.drop_left]
      intro other hother
      rcases List.mem_cons.mp hother with rfl | hother
      · exact hpair
      · exact hscalar hall other hother

-- What is behind the header of a message that is not a clear message.
theorem decode_tail_eq [Heap] {started : ModuleControl} {config : Configuration}
    (hclear : started.is_clear = false) (hstarted : started.values.Holds [])
    (hget : config.modules.get started.module_id.toNat = some m) (buf : DecodeBuffer) :
    ∃ grown : SArray ValuePair, grown.Holds [] ∧ started.decode_tail config buf =
      (decode_values m started.carried grown buf).map fun result =>
        ((.SUCCESS, { started with values := result.1 }), result.2) := by
  let grown := if started.get_num_values > 0 then
    started.values.ensure_capacity started.get_num_values else started.values
  have hgrown : grown.Holds [] := by
    show (if _ then _ else _ : SArray ValuePair).Holds []
    split
    · exact (hstarted.ensure_capacity _).1
    · exact hstarted
  refine ⟨grown, hgrown, ?_⟩
  rw [decode_tail, if_neg (Bool.eq_false_iff.mp hclear), filter_range_eq_carried hclear, hget]
  cases hcarried : started.carried with
  | nil => rfl
  | cons id ids =>
      show (decode_values m (id :: ids) grown buf).bind _ = _
      cases decode_values m (id :: ids) grown buf <;> rfl

-- A new message goes through the values of the one whose bytes it decodes.
theorem decode_encoding [Heap] {mc : ModuleControl} {config : Configuration} (hclear : mc.is_clear = false)
    (hget : config.modules.get mc.module_id.toNat = some m) (pairs : List ValuePair) :
    ∃ (start : ModuleControl) (grown : SArray ValuePair) (behind : DecodeBuffer),
      start.module = some m ∧ start.input_ids = mc.input_ids ∧ grown.Holds [] ∧
      behind.rest = pairs.flatMap ValuePair.bytes ∧
      empty.decode config (Cursor.ofList (mc.encoding pairs)) =
        (decode_values m mc.carried grown behind).map fun result =>
          ((.SUCCESS, { start with values := result.1 }), result.2) := by
  have htake : (mc.encoding pairs).take HeaderSize = mc.header := by
    rw [encoding, ← length_header mc, List.take_left]
  have hroom : HeaderSize ≤ (mc.encoding pairs).length := by
    rw [encoding, List.length_append, length_header]
    exact Nat.le_add_right _ _
  have hannounced : announced (mc.encoding pairs) =
      { empty with module_id := mc.module_id, input_ids := mc.input_ids } := by
    rw [announced, htake, withHeader_header]
  have hget' : config.modules.get (announced (mc.encoding pairs)).module_id.toNat = some m := by
    rw [hannounced]
    exact hget
  let start : ModuleControl := ⟨mc.module_id, mc.input_ids, some m, empty.values.clear⟩
  have hstart : empty.started m (mc.encoding pairs) = start := by
    rw [started_eq empty m hroom, hannounced]
  have hset : start.is_clear = false := hclear
  obtain ⟨grown, hgrown, htail⟩ := decode_tail_eq (m := m) hset (SArray.holds_alloc 0).clear hget
    ((Cursor.ofList (mc.encoding pairs)).advance HeaderSize)
  refine ⟨start, grown, (Cursor.ofList (mc.encoding pairs)).advance HeaderSize, rfl, rfl, hgrown, ?_, ?_⟩
  · rw [Cursor.rest_advance, Cursor.rest_ofList, encoding, ← length_header mc, List.drop_left]
  · rw [decode_eq empty hroom hget', hstart, htail]
    rfl

theorem forall₂_of_eq {out mc : ModuleControl} {outs : List ValuePair} (hout : out.values.Holds outs)
    (hmc : mc.values.Holds pairs) (hlength : outs.length = pairs.length)
    (hcount : out.get_num_values = pairs.length) (h : out.eq mc = some true) :
    List.Forall₂ (fun out pair : ValuePair => out.eq pair = some true) outs pairs := by
  rw [ModuleControl.eq] at h
  split at h
  · split at h
    · obtain ⟨-, hall⟩ := foldlM_all_iff.mp h
      refine List.forall₂_iff_get.mpr ⟨hlength, fun i hi hi' => ?_⟩
      have hpair := hall i (List.mem_range.mpr (by rw [hcount]; exact hi'))
      rw [hout.get, hmc.get, List.getElem?_eq_getElem hi, List.getElem?_eq_getElem hi'] at hpair
      exact hpair
    · exact absurd h (by simp)
  · exact absurd (Option.some.inj h) Bool.false_ne_true

-- What a new message makes of the bytes of one with arrays, whatever its values are.
theorem Carries.scalar_of_values {mc out : ModuleControl} {config : Configuration} {r : DecodeResult}
    (h : mc.Carries (Fitting inputs) pairs) (hclear : mc.is_clear = false)
    (hget : config.modules.get mc.module_id.toNat = some m) (hm : m.Indexed inputs)
    (hrun : @decode Heap.zeros empty config (Cursor.ofList (mc.encoding pairs)) = some ((r, out), buf')) :
    ∃ outs, out.values.Holds outs ∧ out.get_num_values = pairs.length ∧
      List.Forall₂ (fun out pair : ValuePair =>
        out.input = pair.input ∧ out.value.data_type = pair.value.data_type) outs pairs ∧
      (List.Forall₂ (fun out pair : ValuePair =>
          load out.value.value pair.value.data_type.width.toNat = some pair.bytes) outs pairs →
        ∀ pair ∈ pairs, pair.Scalar) := by
  obtain ⟨start, grown, behind, -, hids, hgrown, hrest, hdecode⟩ :=
    @decode_encoding m Heap.zeros mc config hclear hget pairs
  rw [hdecode] at hrun
  obtain ⟨result, hvalues, hout⟩ := Option.map_eq_some_iff.mp hrun
  obtain ⟨hout, -⟩ := Prod.mk.inj hout
  obtain ⟨-, rfl⟩ := Prod.mk.inj hout
  obtain ⟨outs, houts, hpairs, hscalar⟩ := scalar_of_same hm h.2.2 h.2.1 hgrown hvalues
  refine ⟨outs, houts, ?_, hpairs, fun hsame => (hscalar hsame).2 hrest⟩
  rw [h.length_eq, get_num_values, get_num_values, is_clear, is_clear, hids]

-- A message with arrays does not arrive as it was sent, whatever its values are.
theorem Carries.scalar_of_arrives {mc out : ModuleControl} {config : Configuration} {r : DecodeResult}
    (h : mc.Carries (Fitting inputs) pairs) (hclear : mc.is_clear = false)
    (hget : config.modules.get mc.module_id.toNat = some m) (hm : m.Indexed inputs)
    (hrun : @decode Heap.zeros empty config (Cursor.ofList (mc.encoding pairs)) = some ((r, out), buf'))
    (hsame : out.eq mc = some true) : ∀ pair ∈ pairs, pair.Scalar := by
  obtain ⟨outs, houts, hcount, hpairs, hscalar⟩ := h.scalar_of_values hclear hget hm hrun
  have heqs := forall₂_of_eq houts h.1 hpairs.length_eq hcount hsame
  apply hscalar
  rw [List.forall₂_iff_get] at hpairs heqs ⊢
  refine ⟨hpairs.1, fun i hi hi' => ?_⟩
  exact load_of_eq (hpairs.2 i hi hi').2 (h.2.2 _ (List.get_mem _ _)).loadable (heqs.2 i hi hi')

end ModuleControl

end RoboCrisp.Comms
