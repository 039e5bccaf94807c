import RoboCrisp.Comms.Equality
import RoboCrisp.Comms.ModuleControl.Arrays

namespace RoboCrisp.Comms.DataValue

open RoboCrisp.Stream RoboCrisp.Util RoboCrisp.Comms.ModuleControl

-- A value of a declaration: one element, or any number of them if it is an array.
structure Declared (dv : DataValue) : Prop where
  positive : 0 < dv.data_type.width.toNat
  elements : ∃ count, dv.value.length = count * dv.data_type.width.toNat ∧
    (dv.data_type.is_array = false → count = 1)

-- What encode writes is as long as announced, and decoded to an equal value, whatever follows it.
def RoundTrips (dv : DataValue) : Prop :=
  ∃ bytes, Encoder.Stores dv.encode bytes .SUCCESS ∧ bytes.length = dv.get_encoded_size ∧
    ∀ (_ : Heap) (buf : DecodeBuffer) (suffix : Bytes), buf.rest = bytes ++ suffix →
      ∃ out, decode dv.data_type buf = some (out, buf.advance bytes.length) ∧ out.eq dv = some true

-- No byte of what is decoded is one that the allocation happened to leave.
def Initialises (data_type : DataDeclaration) : Prop :=
  ∀ buf : DecodeBuffer, ∃ out buf', ∀ _ : Heap, decode data_type buf = some (out, buf')

variable {dv : DataValue} {data_type : DataDeclaration}

theorem roundTrips_of_scalar (h : dv.Declared) (hscalar : dv.data_type.is_array = false) :
    dv.RoundTrips := by
  obtain ⟨count, hlength, hone⟩ := h.elements
  rw [hone hscalar, Nat.one_mul] at hlength
  have hload : load dv.value dv.data_type.width.toNat = some dv.value := by
    rw [load, hlength, if_pos (Nat.le_refl _), ← hlength, List.take_length]
  refine ⟨dv.value, ?_, hlength, fun heap buf suffix hrest => ⟨dv, ?_, ?_⟩⟩
  · rw [encode, hload]
    exact Encoder.Stores.write dv.value
  · exact consumes_decode_value (by simp [hscalar]) hlength buf suffix hrest
  · rw [DataValue.eq, if_pos (DataDeclaration.eq_self _), hload]
    simp

-- The bytes of the first element are read as a count, so that what comes out as the first element
-- would have to come from behind them.
theorem not_roundTrips_of_array (h : dv.Declared) (harray : dv.data_type.is_array = true) :
    ¬dv.RoundTrips := by
  rintro ⟨bytes, hstores, hlength, hdecode⟩
  have hload : load dv.value dv.data_type.width.toNat = some bytes := by
    cases hload : load dv.value dv.data_type.width.toNat with
    | none =>
        have hnone := hstores (Sink.ofList bytes) (by simp [Sink.free_eq, Sink.ofList])
        rw [encode, hload] at hnone
        cases hnone
    | some value =>
        rw [encode, hload] at hstores
        exact congrArg some (Encoder.Stores.unique (Encoder.Stores.write value) hstores)
  obtain ⟨out, hout, heq⟩ := hdecode Heap.zeros (Cursor.ofList bytes) [] (List.append_nil _).symm
  obtain ⟨-, -, -, -, -, -, -, htype⟩ := decode_spends hout
  have hmore := array_spends_more harray hlength h.positive (List.append_nil _).symm hout
    (load_of_eq htype hload heq)
  exact absurd hmore (Nat.not_lt_zero _)

theorem value_roundTrips_iff (h : dv.Declared) : dv.RoundTrips ↔ dv.data_type.is_array = false := by
  constructor
  · intro htrips
    by_contra harray
    exact not_roundTrips_of_array h (by simpa using harray) htrips
  · exact roundTrips_of_scalar h

theorem initialises_of_scalar (hscalar : data_type.is_array = false) : Initialises data_type := by
  intro buf
  have hlt := data_type.width.isLt
  have hcount : decode_count data_type = pure 1 := by
    rw [decode_count, hscalar]
    rfl
  by_cases hroom : data_type.width.toNat ≤ buf.rest.length
  · refine ⟨⟨data_type, buf.rest.take data_type.width.toNat⟩,
      buf.advance (buf.rest.take data_type.width.toNat).length, fun _ => ?_⟩
    exact consumes_decode_value (by simp [hscalar]) (List.length_take_of_le hroom) buf
      (buf.rest.drop data_type.width.toNat) (List.take_append_drop _ _).symm
  · refine ⟨⟨data_type, List.replicate (1 * data_type.width.toNat % 2 ^ 64) 0⟩, buf, fun _ => ?_⟩
    rw [decode, hcount, pure_bind, get_bind_apply, Cursor.length_sub_offset, if_neg hroom]
    rfl

-- A count of 255 elements with room for one of them.
def shortArray (width : Nat) : Bytes :=
  255 :: List.replicate (width - 1) 0 ++ List.replicate width 0

theorem consumes_decode_count (harray : data_type.is_array = true)
    (hpos : 0 < data_type.width.toNat) (hwidth : data_type.width.toNat ≤ 8) :
    Decoder.Consumes (decode_count data_type)
      (255 :: List.replicate (data_type.width.toNat - 1) 0) 255 := by
  have hlength : (255 :: List.replicate (data_type.width.toNat - 1) (0 : UInt8)).length =
      data_type.width.toNat := by
    rw [List.length_cons, List.length_replicate]
    omega
  have hcount : ofLittleEndian (255 :: List.replicate (data_type.width.toNat - 1) 0 ++
      (littleEndian 8 1).drop data_type.width.toNat) = 255 := by
    rw [List.cons_append, ofLittleEndian, ofLittleEndian_of_nonzero
      (by rw [nonzero_append, nonzero_replicate, nonzero_default hpos])]
    rfl
  rw [decode_count, if_pos harray]
  refine (Decoder.Consumes.read hlength).bind_last ?_
  simp only [if_pos hwidth, hlength, hcount]
  exact Decoder.Consumes.pure 255

-- The room is checked for one element, and read for all of them.
theorem decode_shortArray [Heap] (harray : data_type.is_array = true)
    (hpos : 0 < data_type.width.toNat) (hwidth : data_type.width.toNat ≤ 8) :
    ∃ buf', decode data_type (Cursor.ofList (shortArray data_type.width.toNat)) =
      some (⟨data_type, Heap.alloc (255 * data_type.width.toNat)⟩, buf') := by
  obtain ⟨buf', hrest, hcount⟩ : ∃ buf' : DecodeBuffer,
      buf'.rest = List.replicate data_type.width.toNat 0 ∧
        decode_count data_type (Cursor.ofList (shortArray data_type.width.toNat)) =
          some (255, buf') := by
    refine ⟨_, ?_, consumes_decode_count harray hpos hwidth _ _ rfl⟩
    rw [Cursor.rest_advance, Cursor.rest_ofList, shortArray, List.drop_left]
  have hroom : buf'.length - buf'.offset = data_type.width.toNat := by
    rw [Cursor.length_sub_offset, hrest, List.length_replicate]
  have hsize : 255 * data_type.width.toNat % 2 ^ 64 = 255 * data_type.width.toNat :=
    Nat.mod_eq_of_lt (by omega)
  have hread : read (255 * data_type.width.toNat) buf' = some (none, buf') := by
    refine congrArg some ?_
    rw [Cursor.read, hroom, if_pos (by omega)]
  refine ⟨buf', ?_⟩
  rw [decode, bind_apply, hcount, Option.bind_some, get_bind_apply, hroom, if_pos (Nat.le_refl _),
    hsize, bind_apply, hread]
  rfl

theorem initialises_iff (hpos : 0 < data_type.width.toNat) :
    Initialises data_type ↔ data_type.is_array = false := by
  constructor
  · intro hinit
    by_contra hscalar
    have harray : data_type.is_array = true := by simpa using hscalar
    obtain ⟨out, buf', hout⟩ := hinit (Cursor.ofList (shortArray data_type.width.toNat))
    have hwidth : data_type.width.toNat ≤ 8 := by
      by_contra hwide
      have hspan : span data_type (shortArray data_type.width.toNat) = none := by
        have hlength : data_type.width.toNat ≤ (shortArray data_type.width.toNat).length := by
          simp [shortArray]
          omega
        rw [span, if_pos harray, if_neg (by omega), if_neg hwide]
      have hnone := @decode_of_span_none _ (Cursor.ofList (shortArray data_type.width.toNat))
        Heap.zeros hspan
      cases hnone.symm.trans (hout Heap.zeros)
    obtain ⟨_, hzeros⟩ := @decode_shortArray _ Heap.zeros harray hpos hwidth
    obtain ⟨_, hones⟩ := @decode_shortArray _ ⟨fun _ => 1⟩ harray hpos hwidth
    have hzero := (Prod.mk.inj (Option.some.inj (hzeros.symm.trans (hout Heap.zeros)))).1
    have hone := (Prod.mk.inj (Option.some.inj (hones.symm.trans (hout ⟨fun _ => 1⟩)))).1
    have hsame : @Heap.alloc Heap.zeros (255 * data_type.width.toNat) =
        @Heap.alloc ⟨fun _ => 1⟩ (255 * data_type.width.toNat) :=
      congrArg DataValue.value (hzero.trans hone.symm)
    have hfirst : (0 : UInt8) ∈ @Heap.alloc ⟨fun _ => 1⟩ (255 * data_type.width.toNat) := by
      rw [← hsame]
      exact List.mem_map.mpr ⟨0, List.mem_range.mpr (by omega), rfl⟩
    obtain ⟨_, -, hbyte⟩ := List.mem_map.mp hfirst
    exact absurd (show (1 : UInt8) = 0 from hbyte) (by decide)
  · exact initialises_of_scalar

structure Agrees (dv : DataValue) : Prop where
  round_trips : dv.RoundTrips
  initialises : Initialises dv.data_type

theorem codec_agrees_iff (h : dv.Declared) : dv.Agrees ↔ dv.data_type.is_array = false :=
  ⟨fun hagrees => (value_roundTrips_iff h).mp hagrees.round_trips,
    fun hscalar => ⟨(value_roundTrips_iff h).mpr hscalar, (initialises_iff h.positive).mpr hscalar⟩⟩

def level : DataValue := ⟨{ DataDeclaration.empty with width := 2 }, [1, 2]⟩

theorem level_agrees : level.Agrees :=
  (codec_agrees_iff ⟨by decide, 1, by decide, fun _ => rfl⟩).mpr rfl

def samples : DataValue :=
  ⟨{ DataDeclaration.empty with width := 1, is_array := true, array_size_width := 1 }, [1, 2]⟩

theorem samples_not_agrees : ¬∀ dv : DataValue, dv.Declared → dv.Agrees := by
  intro h
  have hdeclared : samples.Declared := ⟨by decide, 2, by decide, fun h => absurd h (by decide)⟩
  exact not_roundTrips_of_array hdeclared rfl (h samples hdeclared).round_trips

end RoboCrisp.Comms.DataValue
