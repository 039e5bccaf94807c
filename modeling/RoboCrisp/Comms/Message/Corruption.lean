import RoboCrisp.Comms.Message.Safety
import RoboCrisp.Util.Checksum.Bitwise

namespace RoboCrisp.Comms

open RoboCrisp.Stream RoboCrisp.Util

-- A message of a type with a checksum around a body, with the length that the constructor
-- gives it.
structure Message.Encloses (m : Message) (body : Bytes) : Prop where
  checksummed : ∃ info, get_type_info m.header.type = some info ∧ info.has_checksum = true
  body_eq : m.body = some body
  length_eq : m.header.length = UInt16.ofNat (body.length + MESSAGE_CHECKSUM_SIZE)

-- Other bytes in the place of no more than four in the body, with the header and the checksum
-- as they were sent, give a message that does not pass the receiver's test.
def Message.DetectsCorruption (m : Message) (body : Bytes) : Prop :=
  ∃ header checksum : Bytes, header.length = HeaderSize ∧ checksum.length = MESSAGE_CHECKSUM_SIZE ∧
    Stores m.encode (header ++ body ++ checksum) ∧
    ∀ front window window' back : Bytes, body = front ++ window ++ back → window.length ≤ 4 →
      window'.length = window.length → window' ≠ window →
      ∃ received rest,
        decode (Cursor.ofList (header ++ (front ++ window' ++ back) ++ checksum)) =
          some (received, rest) ∧ received.checksum_ok = some false

namespace Message

variable {m : Message} {body : Bytes}

-- The bytes behind the body.
def sentChecksum (m : Message) (body : Bytes) : Bytes :=
  littleEndian MESSAGE_CHECKSUM_SIZE (crc32 (m.header.bytes ++ body)).toNat

theorem length_sentChecksum (m : Message) (body : Bytes) :
    (m.sentChecksum body).length = MESSAGE_CHECKSUM_SIZE := length_littleEndian _ _

theorem Encloses.stores (h : m.Encloses body) :
    Stores m.encode (m.header.bytes ++ body ++ m.sentChecksum body) := by
  obtain ⟨⟨info, hinfo, hchecksum⟩, hbody, -⟩ := h
  obtain ⟨hhas, hnone⟩ := has_body_of_has_checksum hinfo hchecksum
  have hcompute : m.compute_checksum = some (crc32 (m.header.bytes ++ body)) := by
    simp only [compute_checksum, hinfo, Option.bind_eq_bind, Option.bind_some, if_pos hchecksum, hbody]
    rfl
  have hencode : m.encode = (do
      let _ ← write m.header.bytes
      let _ ← write body
      let _ ← write (m.sentChecksum body)
      return .SUCCESS) := by
    rw [encode, hinfo, sentChecksum]
    have hfirst : m.encode_body info = write body := by
      rw [encode_body, if_pos hhas, hbody, hnone]
    have hsecond : m.encode_checksum info = write (littleEndian MESSAGE_CHECKSUM_SIZE
        (crc32 (m.header.bytes ++ body)).toNat) := by
      rw [encode_checksum, if_pos hchecksum, hcompute]
      rfl
    rw [← hfirst, ← hsecond]
    rfl
  rw [hencode]
  have hemits : Emits (do
      let _ ← write m.header.bytes
      let _ ← write body
      let _ ← write (m.sentChecksum body)
      return .SUCCESS)
      [⟨m.header.bytes, false⟩, ⟨body, false⟩, ⟨m.sentChecksum body, false⟩] :=
    Encoder.Emits.write_ignored _ (Encoder.Emits.write_ignored _
      (Encoder.Emits.write_ignored _ Encoder.Emits.pure))
  simpa using hemits.stores

section Decoding

variable {info : MessageTypeInfo} (hinfo : get_type_info m.header.type = some info)
  (hchecksum : info.has_checksum = true)

include hinfo hchecksum

-- The frame that a receiver sees in what has the message's header in front.
def frameOf (inner : Bytes) (checksum : UInt32)
    (hlt : inner.length + MESSAGE_CHECKSUM_SIZE < 2 ^ 16) : Frame where
  type := m.header.type
  info := info
  known := hinfo
  body := inner
  checksum := checksum
  no_body := fun hno => absurd (has_body_of_has_checksum hinfo hchecksum).1 (by rw [hno]; decide)
  no_checksum := fun hno => absurd hchecksum (by rw [hno]; decide)
  length_lt := by rwa [MessageTypeInfo.checksum_size, if_pos hchecksum]

-- It goes as far as the length in the header says, and it passes if the checksum there is
-- that of what precedes it.
theorem decode_announced {inner : Bytes} (checksum : UInt32)
    (hlength : m.header.length.toNat = inner.length + MESSAGE_CHECKSUM_SIZE) (back : Bytes) :
    ∃ received rest,
      decode (Cursor.ofList (m.header.bytes ++
        (inner ++ littleEndian MESSAGE_CHECKSUM_SIZE checksum.toNat) ++ back)) = some (received, rest) ∧
      received.checksum_ok = some (checksum == crc32 (m.header.bytes ++ inner)) := by
  have hlt : inner.length + MESSAGE_CHECKSUM_SIZE < 2 ^ 16 := hlength ▸ m.header.length.toNat_lt
  let f := frameOf hinfo hchecksum inner checksum hlt
  have hheader : f.header = m.header := by
    show (⟨UInt16.ofNat (inner.length + info.checksum_size), m.header.type⟩ : Header) = m.header
    rw [MessageTypeInfo.checksum_size, if_pos hchecksum, ← hlength, UInt16.ofNat_toNat]
  have hwire : f.wire = m.header.bytes ++ (inner ++ littleEndian MESSAGE_CHECKSUM_SIZE checksum.toNat) := by
    rw [Frame.wire, hheader, Frame.checksumBytes, show f.info.has_checksum = true from hchecksum]
    rfl
  obtain ⟨rest, hdecode⟩ := f.decode_eq back
  obtain ⟨ok, hok, hintact⟩ := f.checksum_ok_eq
  refine ⟨f.message, rest, hwire ▸ hdecode, ?_⟩
  rw [hok, Option.some.injEq, Bool.eq_iff_iff, hintact, beq_iff_eq, Frame.Intact, hheader]
  exact ⟨fun h => h hchecksum, fun h _ => h⟩

-- A length that does not cover the checksum asks for a body that there is no memory for.
theorem decode_unannounced (hlength : m.header.length.toNat < MESSAGE_CHECKSUM_SIZE) (back : Bytes) :
    decode (Cursor.ofList (m.header.bytes ++ back)) = none := by
  have htake : (m.header.bytes ++ back).take HeaderSize = m.header.bytes :=
    List.take_left' m.header.length_bytes
  have hheader : Header.ofBytes ((m.header.bytes ++ back).take HeaderSize) = m.header := by
    rw [htake, Header.ofBytes_bytes]
  have hknown : get_type_info
      (Header.ofBytes ((m.header.bytes ++ back).take HeaderSize)).type = some info := by
    rw [hheader, hinfo]
  refine decode_uncovered ?_ hknown (has_body_of_has_checksum hinfo hchecksum).1 ?_
  · rw [List.length_append, Header.length_bytes]
    exact Nat.le_add_right _ _
  · rw [hheader, MessageTypeInfo.checksum_size, if_pos hchecksum]
    omega

end Decoding

-- The length counts the whole body as long as it fits into its sixteen bits.
theorem Encloses.length_of_le (h : m.Encloses body)
    (hle : body.length + MESSAGE_CHECKSUM_SIZE ≤ 65535) :
    m.header.length.toNat = body.length + MESSAGE_CHECKSUM_SIZE := by
  rw [h.length_eq, UInt16.toNat_ofNat', Nat.mod_eq_of_lt (by omega)]

theorem Encloses.detects (h : m.Encloses body)
    (hle : body.length + MESSAGE_CHECKSUM_SIZE ≤ 65535) : m.DetectsCorruption body := by
  refine ⟨m.header.bytes, m.sentChecksum body, m.header.length_bytes, m.length_sentChecksum body,
    h.stores, fun front window window' back hbody hwindow hlength hne => ?_⟩
  obtain ⟨info, hinfo, hchecksum⟩ := h.checksummed
  have hannounced : m.header.length.toNat =
      (front ++ window' ++ back).length + MESSAGE_CHECKSUM_SIZE := by
    rw [h.length_of_le hle, hbody]
    simp [hlength]
  obtain ⟨received, rest, hdecode, hok⟩ := decode_announced hinfo hchecksum
    (crc32 (m.header.bytes ++ body)) hannounced []
  refine ⟨received, rest, ?_, hok.trans (congrArg some ?_)⟩
  · rwa [List.append_nil, ← List.append_assoc] at hdecode
  · rw [beq_eq_false_iff_ne, hbody]
    have hcrc : crc32 (m.header.bytes ++ front ++ window ++ back) ≠
        crc32 (m.header.bytes ++ front ++ window' ++ back) :=
      crc32_window_ne hwindow hlength.symm (Ne.symm hne)
    simpa only [List.append_assoc] using hcrc

-- A body that is longer than announced has four bytes in the place of the checksum, and more
-- behind them.
theorem exists_announced {length : Nat} (hcovers : MESSAGE_CHECKSUM_SIZE ≤ length)
    (hlt : length < body.length) : ∃ inner field byte tail, body = inner ++ field ++ [byte] ++ tail ∧
      length = inner.length + MESSAGE_CHECKSUM_SIZE ∧ field.length = MESSAGE_CHECKSUM_SIZE := by
  have hsplit := List.take_append_drop (length - MESSAGE_CHECKSUM_SIZE) (body.take length)
  refine ⟨(body.take length).take (length - MESSAGE_CHECKSUM_SIZE),
    (body.take length).drop (length - MESSAGE_CHECKSUM_SIZE), body[length], body.drop (length + 1),
    ?_, ?_, ?_⟩
  · rw [hsplit, List.append_assoc, List.singleton_append, List.getElem_cons_drop,
      List.take_append_drop]
  · simp only [List.length_take]
    omega
  · simp only [List.length_drop, List.length_take]
    omega

-- A receiver of a longer body takes its first bytes for all of it.
theorem Encloses.not_detects (h : m.Encloses body)
    (hgt : 65535 < body.length + MESSAGE_CHECKSUM_SIZE) : ¬m.DetectsCorruption body := by
  rintro ⟨header, checksum, hheader, hchecksum, hstores, hdetects⟩
  have hsame := Encoder.Stores.unique hstores h.stores
  rw [List.append_assoc, List.append_assoc] at hsame
  obtain ⟨rfl, hsame⟩ := List.append_inj hsame (hheader.trans m.header.length_bytes.symm)
  obtain ⟨info, hinfo, hhas⟩ := h.checksummed
  have hlength : m.header.length.toNat = (body.length + MESSAGE_CHECKSUM_SIZE) % 65536 := by
    rw [h.length_eq, UInt16.toNat_ofNat']
  have hother : ∀ byte : UInt8, [byte + 1] ≠ [byte] := by
    intro byte
    simp
  by_cases hcovers : m.header.length.toNat < MESSAGE_CHECKSUM_SIZE
  · obtain ⟨byte, back, rfl⟩ : ∃ byte back, body = byte :: back :=
      List.exists_cons_of_ne_nil (by rintro rfl; simp [MESSAGE_CHECKSUM_SIZE] at hgt)
    obtain ⟨received, rest, hdecode, -⟩ :=
      hdetects [] [byte] [byte + 1] back rfl (Nat.le_add_left 1 3) rfl (hother byte)
    rw [List.append_assoc, decode_unannounced hinfo hhas hcovers] at hdecode
    exact absurd hdecode (by simp)
  · -- what stands in the place of the checksum belongs to the body
    obtain ⟨inner, field, byte, tail, rfl, hinner, hfield⟩ := exists_announced
      (Nat.le_of_not_lt hcovers) (show m.header.length.toNat < body.length by rw [hlength, MESSAGE_CHECKSUM_SIZE] at *; omega)
    -- the right bytes there, whatever follows them, pass for a message
    have haccepts : ∀ back received rest, decode (Cursor.ofList (m.header.bytes ++ (inner ++
        littleEndian MESSAGE_CHECKSUM_SIZE (crc32 (m.header.bytes ++ inner)).toNat) ++ back)) =
          some (received, rest) → received.checksum_ok ≠ some false := by
      intro back received rest hdecode hok
      obtain ⟨received', rest', hdecode', hok'⟩ := decode_announced hinfo hhas
        (crc32 (m.header.bytes ++ inner)) hinner back
      obtain ⟨rfl, -⟩ := Prod.mk.inj (Option.some.inj (hdecode.symm.trans hdecode'))
      rw [hok', beq_self_eq_true] at hok
      exact absurd (Option.some.inj hok) (by decide)
    by_cases hright : littleEndian MESSAGE_CHECKSUM_SIZE (crc32 (m.header.bytes ++ inner)).toNat = field
    · -- they are there already, and a byte behind them is not looked at
      obtain ⟨received, rest, hdecode, hok⟩ := hdetects (inner ++ field) [byte] [byte + 1] tail rfl
        (Nat.le_add_left 1 3) rfl (hother byte)
      refine haccepts ([byte + 1] ++ tail ++ checksum) received rest ?_ hok
      rw [← hdecode, hright]
      simp only [List.append_assoc]
    · obtain ⟨received, rest, hdecode, hok⟩ := hdetects inner field _ ([byte] ++ tail)
        (by simp only [List.append_assoc]) (Nat.le_of_eq hfield)
        ((length_littleEndian _ _).trans hfield.symm) hright
      refine haccepts ([byte] ++ tail ++ checksum) received rest ?_ hok
      rw [← hdecode]
      simp only [List.append_assoc]

-- Short corruption of the body is found out exactly if the length field holds the length.
theorem detectsCorruption_iff (h : m.Encloses body) :
    m.DetectsCorruption body ↔ body.length + MESSAGE_CHECKSUM_SIZE ≤ 65535 := by
  constructor
  · intro hdetects
    by_contra hgt
    exact h.not_detects (Nat.lt_of_not_le hgt) hdetects
  · exact h.detects

-- An ERROR around a body of zeros.
def zeros (size : Nat) : Message where
  header := ⟨UInt16.ofNat (size + MESSAGE_CHECKSUM_SIZE), .ERROR⟩
  body := some (List.replicate size 0)
  checksum := 0

theorem zeros_encloses (size : Nat) : (zeros size).Encloses (List.replicate size 0) :=
  ⟨⟨⟨.ERROR, true, true, none⟩, rfl, rfl⟩, rfl, by rw [List.length_replicate]; rfl⟩

theorem zeros_detectsCorruption : (zeros 8).DetectsCorruption (List.replicate 8 0) :=
  (detectsCorruption_iff (zeros_encloses 8)).mpr (by decide)

-- With a body of 65536 bytes, the length says that there are only the four of a checksum.
theorem zeros_not_detectsCorruption :
    ¬∀ (m : Message) (body : Bytes), m.Encloses body → m.DetectsCorruption body := by
  intro h
  refine (zeros_encloses 65536).not_detects ?_ (h _ _ (zeros_encloses 65536))
  rw [List.length_replicate]
  decide

end Message

end RoboCrisp.Comms
