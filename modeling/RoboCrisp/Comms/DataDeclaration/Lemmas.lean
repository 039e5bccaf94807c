import RoboCrisp.Comms.Contents

namespace RoboCrisp.Comms

open RoboCrisp.Stream RoboCrisp.Util

theorem Slot.store_of_le (slot : Slot) {source : Bytes} (h : source.length ≤ 16) :
    ∃ slot', slot.store source = some slot' ∧ source <+: slot'.bytes :=
  ⟨_, dif_pos h, List.prefix_append _ _⟩

theorem Bound.length_wire {width : Nat} (bound : Option (Bound width)) :
    (Bound.wire bound).length = width * bound.isSome.toNat := by
  cases bound with
  | none => simp [Bound.wire]
  | some bound => simp [Bound.wire, bound.length_eq]

namespace DataDeclaration

variable {obj : DataDeclaration} {s : DeclarationContents}

theorem headerBits_lt (type : BitVec 6) (width : BitVec 5)
    (is_array is_signed has_neutral_value has_minimum_value has_maximum_value : Bool)
    (array_size_width : UInt8) :
    headerBits type width is_array is_signed has_neutral_value has_minimum_value
      has_maximum_value array_size_width < 256 ^ HeaderSize := by
  have htype := type.isLt
  have hwidth := width.isLt
  have harray := is_array.toNat_lt
  have hsigned := is_signed.toNat_lt
  have hneutral := has_neutral_value.toNat_lt
  have hminimum := has_minimum_value.toNat_lt
  have hmaximum := has_maximum_value.toNat_lt
  have hsize := array_size_width.toNat_lt
  simp only [headerBits, HeaderSize]
  omega

theorem length_header (s : DeclarationContents) : s.header.length = HeaderSize := by
  simp [DeclarationContents.header]

theorem length_tail (s : DeclarationContents) :
    s.tail.length = s.width.toNat * (s.neutral_value.isSome.toNat + s.minimum_value.isSome.toNat +
      s.maximum_value.isSome.toNat) := by
  simp only [DeclarationContents.tail, List.length_append, Bound.length_wire, Nat.mul_add,
    Nat.add_assoc]

theorem Represents.header_eq (h : obj.Represents s) : obj.header = s.header := by
  simp only [header, DeclarationContents.header, h.type_eq, h.width_eq, h.is_array_eq,
    h.is_signed_eq, h.array_size_width_eq, h.neutral.present_eq, h.minimum.present_eq,
    h.maximum.present_eq]

theorem get_tail_size_eq_add (obj : DataDeclaration) :
    obj.get_tail_size = obj.width.toNat * obj.has_neutral_value.toNat +
      (obj.width.toNat * obj.has_minimum_value.toNat +
        obj.width.toNat * obj.has_maximum_value.toNat) := by
  rw [get_tail_size, Nat.mul_add, Nat.mul_add, Nat.add_assoc]

theorem Represents.get_tail_size_eq (h : obj.Represents s) : obj.get_tail_size = s.tail.length := by
  rw [length_tail, get_tail_size, h.width_eq, h.neutral.present_eq, h.minimum.present_eq,
    h.maximum.present_eq]

theorem Represents.get_encoded_size_eq (h : obj.Represents s) :
    obj.get_encoded_size = s.wire.length := by
  rw [DeclarationContents.wire, List.length_append, length_header, get_encoded_size,
    h.get_tail_size_eq]

section Encode

def boundPieces {width : Nat} : Option (Bound width) → List (Piece UInt8)
  | none => []
  | some bound => [⟨bound.bytes, true⟩]

def tailPieces (s : DeclarationContents) : List (Piece UInt8) :=
  boundPieces s.neutral_value ++ (boundPieces s.minimum_value ++ boundPieces s.maximum_value)

theorem wire_boundPieces {width : Nat} (bound : Option (Bound width)) :
    Stream.wire (boundPieces bound) = Bound.wire bound := by
  cases bound <;> simp [boundPieces, Bound.wire]

theorem wire_tailPieces (s : DeclarationContents) : Stream.wire (tailPieces s) = s.tail := by
  simp only [tailPieces, wire_append, wire_boundPieces, DeclarationContents.tail]

theorem Holds.emits {width : Nat} {present : Bool} {slot : Slot} {bound : Option (Bound width)}
    (h : Holds present slot bound) : Emits (encode_bound present slot width) (boundPieces bound) := by
  obtain ⟨rfl, hpre⟩ := h
  cases bound with
  | none => exact Encoder.Emits.pure
  | some bound =>
      have hload : load slot.bytes width = some bound.bytes := by
        have hbytes := load_of_prefix (hpre bound rfl)
        rwa [bound.length_eq] at hbytes
      simp only [encode_bound, Option.isSome_some, ite_true, hload]
      exact Encoder.Emits.write bound.bytes

theorem Represents.emits_tail (h : obj.Represents s) : Emits obj.encode_tail (tailPieces s) := by
  unfold encode_tail
  rw [h.width_eq]
  exact h.neutral.emits.andThen (h.minimum.emits.andThen h.maximum.emits)

theorem Represents.emits (h : obj.Represents s) :
    Emits obj.encode (⟨s.header, true⟩ :: tailPieces s) := by
  have hheader : Emits (write obj.header) [⟨s.header, true⟩] := by
    rw [h.header_eq]
    exact Encoder.Emits.write s.header
  exact hheader.andThen h.emits_tail

end Encode

section Decode

-- What the header says about the object that the tail is read into.
structure HeaderSays (obj : DataDeclaration) (s : DeclarationContents) : Prop where
  type_eq : obj.type = s.type
  width_eq : obj.width = s.width
  is_array_eq : obj.is_array = s.is_array
  is_signed_eq : obj.is_signed = s.is_signed
  array_size_width_eq : obj.array_size_width = s.array_size_width
  neutral_eq : obj.has_neutral_value = s.neutral_value.isSome
  minimum_eq : obj.has_minimum_value = s.minimum_value.isSome
  maximum_eq : obj.has_maximum_value = s.maximum_value.isSome

theorem headerSays_withHeader (obj : DataDeclaration) (s : DeclarationContents) :
    HeaderSays (obj.withHeader s.header) s := by
  have hbits : ofLittleEndian s.header = headerBits s.type s.width s.is_array s.is_signed
      s.neutral_value.isSome s.minimum_value.isSome s.maximum_value.isSome s.array_size_width :=
    ofLittleEndian_littleEndian_of_lt (headerBits_lt _ _ _ _ _ _ _ _)
  have htype := s.type.isLt
  have hwidth := s.width.isLt
  have harray := s.is_array.toNat_lt
  have hsigned := s.is_signed.toNat_lt
  have hneutral := s.neutral_value.isSome.toNat_lt
  have hminimum := s.minimum_value.isSome.toNat_lt
  have hmaximum := s.maximum_value.isSome.toNat_lt
  have hsize := s.array_size_width.toNat_lt
  -- a one-bit field is read back as the bit at its place
  have hbit : ∀ (b : Bool) (n i : Nat), n / 2 ^ i % 2 = b.toNat → n.testBit i = b := by
    intro b n i h
    rw [Nat.testBit_eq_decide_div_mod_eq, h]
    cases b <;> rfl
  constructor <;> simp only [withHeader, hbits]
  · apply BitVec.eq_of_toNat_eq
    rw [BitVec.toNat_ofNat, headerBits]
    omega
  · apply BitVec.eq_of_toNat_eq
    rw [BitVec.toNat_ofNat, headerBits]
    omega
  · apply hbit
    rw [headerBits]
    omega
  · apply hbit
    rw [headerBits]
    omega
  · apply UInt8.toNat_inj.mp
    rw [UInt8.toNat_ofNat', headerBits]
    omega
  · apply hbit
    rw [headerBits]
    omega
  · apply hbit
    rw [headerBits]
    omega
  · apply hbit
    rw [headerBits]
    omega

theorem consumes_decode_bound {width : Nat} (bound : Option (Bound width)) (slot : Slot) :
    ∃ slot', Decoder.Consumes (decode_bound bound.isSome width .SUCCESS slot) (Bound.wire bound)
      (.SUCCESS, slot') ∧ Holds bound.isSome slot' bound := by
  cases bound with
  | none => exact ⟨slot, Decoder.Consumes.pure _, rfl, fun b hb => nomatch hb⟩
  | some bound =>
      have hle : bound.bytes.length ≤ 16 := by rw [bound.length_eq]; exact bound.width_le
      obtain ⟨slot', hstore, hpre⟩ := slot.store_of_le hle
      refine ⟨slot', ?_, rfl, fun b hb => Option.some.inj hb ▸ hpre⟩
      have hread : Decoder.Consumes (read width) bound.bytes (some bound.bytes) :=
        Decoder.Consumes.read bound.length_eq
      unfold decode_bound
      rw [if_pos ⟨rfl, rfl⟩]
      exact hread.bind_last ((Decoder.Consumes.lift hstore).bind_nil (Decoder.Consumes.pure _))

theorem HeaderSays.consumes_decode_tail (h : HeaderSays obj s) :
    ∃ out, Decoder.Consumes obj.decode_tail s.tail (.SUCCESS, out) ∧ out.Represents s := by
  obtain ⟨neutral_value, hneutral, hn⟩ := consumes_decode_bound s.neutral_value obj.neutral_value
  obtain ⟨minimum_value, hminimum, hm⟩ := consumes_decode_bound s.minimum_value obj.minimum_value
  obtain ⟨maximum_value, hmaximum, hx⟩ := consumes_decode_bound s.maximum_value obj.maximum_value
  refine ⟨{ obj with neutral_value, minimum_value, maximum_value }, ?_, h.type_eq, h.width_eq,
    h.is_array_eq, h.is_signed_eq, h.array_size_width_eq, h.neutral_eq ▸ hn, h.minimum_eq ▸ hm,
    h.maximum_eq ▸ hx⟩
  have hsize : obj.get_tail_size = s.tail.length := by
    rw [length_tail, get_tail_size, h.width_eq, h.neutral_eq, h.minimum_eq, h.maximum_eq]
  unfold decode_tail
  refine Decoder.Consumes.get fun buf hbuf => ?_
  rw [if_neg (by omega), h.width_eq, h.neutral_eq, h.minimum_eq, h.maximum_eq]
  exact hneutral.bind (hminimum.bind (hmaximum.bind_last (Decoder.Consumes.pure _)))

theorem consumes_decode (s : DeclarationContents) :
    ∃ out, Decoder.Consumes decode s.wire (.SUCCESS, out) ∧ out.Represents s := by
  obtain ⟨out, htail, hout⟩ := (headerSays_withHeader empty s).consumes_decode_tail
  refine ⟨out, ?_, hout⟩
  have hheader : Decoder.Consumes (read HeaderSize) s.header (some s.header) :=
    Decoder.Consumes.read (length_header s)
  have hdetail : Decoder.Consumes decode_detail s.wire (.SUCCESS, out) := hheader.bind htail
  exact hdetail.bind_last (Decoder.Consumes.pure _)

end Decode

section Sound

-- Every bound that is announced lies inside its slot.
def Sound (obj : DataDeclaration) : Prop :=
  (obj.has_neutral_value || obj.has_minimum_value || obj.has_maximum_value) = true →
    obj.width.toNat ≤ 16

def boundOf (present : Bool) (slot : Slot) {width : Nat} (h : present = true → width ≤ 16) :
    Option (Bound width) :=
  if hp : present = true then
    some ⟨slot.bytes.take width, by simp [slot.length_eq, h hp], h hp⟩
  else none

theorem holds_boundOf (present : Bool) (slot : Slot) {width : Nat}
    (h : present = true → width ≤ 16) : Holds present slot (boundOf present slot h) := by
  cases present with
  | false => exact ⟨rfl, fun b hb => nomatch hb⟩
  | true =>
      refine ⟨rfl, fun b hb => ?_⟩
      rw [← Option.some.inj hb]
      exact List.take_prefix _ _

theorem Sound.width_le (h : obj.Sound) :
    (obj.has_neutral_value = true → obj.width.toNat ≤ 16) ∧
      (obj.has_minimum_value = true → obj.width.toNat ≤ 16) ∧
      (obj.has_maximum_value = true → obj.width.toNat ≤ 16) := by
  refine ⟨fun hp => h ?_, fun hp => h ?_, fun hp => h ?_⟩
  all_goals simp [hp]

theorem Sound.exists_represents (h : obj.Sound) : ∃ s, obj.Represents s := by
  obtain ⟨hneutral, hminimum, hmaximum⟩ := h.width_le
  exact ⟨⟨obj.type, obj.width, obj.is_array, obj.is_signed, obj.array_size_width,
    boundOf obj.has_neutral_value obj.neutral_value hneutral,
    boundOf obj.has_minimum_value obj.minimum_value hminimum,
    boundOf obj.has_maximum_value obj.maximum_value hmaximum⟩,
    rfl, rfl, rfl, rfl, rfl, holds_boundOf _ _ _, holds_boundOf _ _ _, holds_boundOf _ _ _⟩

end Sound

end DataDeclaration

end RoboCrisp.Comms
