import RoboCrisp.Comms.Message.Frame

namespace RoboCrisp.Comms.Message

open RoboCrisp.Stream RoboCrisp.Util

-- The size of the body, where a message without one counts as empty.
def bodySize (m : Message) : Nat := (m.body.getD []).length

-- The decode comes to an end with a body that the buffer has room for and that is as long as
-- the header says.
def DecodesSafely (data : Bytes) : Prop :=
  ∃ m buf info, decode (Cursor.ofList data) = some (m, buf) ∧
    get_type_info m.header.type = some info ∧ m.bodySize ≤ data.length - HeaderSize ∧
    m.bodySize + info.checksum_size = m.header.length.toNat

-- The header names a type that there is, and its length covers the checksum and no more than
-- the bytes that follow.
def Acceptable (data : Bytes) : Prop :=
  ∃ info, get_type_info (Header.ofBytes (data.take HeaderSize)).type = some info ∧
    if info.has_body then
      info.checksum_size ≤ (Header.ofBytes (data.take HeaderSize)).length.toNat ∧
        (Header.ofBytes (data.take HeaderSize)).length.toNat - info.checksum_size ≤
          data.length - HeaderSize
    else (Header.ofBytes (data.take HeaderSize)).length = 0

variable {data : Bytes} {info : MessageTypeInfo}

section Parts

theorem decode_body_eq {length : UInt16} (hbody : info.has_body = true)
    (hlength : info.checksum_size ≤ length.toNat) (buf : DecodeBuffer) :
    ∃ body buf', decode_body length info buf = some (some body, buf') ∧
      body.length = length.toNat - info.checksum_size := by
  rw [decode_body, if_pos hbody, if_neg (by omega), bind_apply]
  show ∃ body buf', ((some (buf.read (length.toNat - info.checksum_size))).bind _) = _ ∧ _
  by_cases hroom : buf.length - buf.offset < length.toNat - info.checksum_size
  · rw [Cursor.read, if_pos hroom]
    exact ⟨_, _, rfl, List.length_replicate⟩
  · rw [Cursor.read, if_neg hroom]
    rw [Cursor.length_sub_offset] at hroom
    exact ⟨_, _, rfl, List.length_take_of_le (by omega)⟩

theorem decode_body_none {length : UInt16} (hbody : info.has_body = true)
    (hlength : ¬info.checksum_size ≤ length.toNat) (buf : DecodeBuffer) :
    decode_body length info buf = none := by
  rw [decode_body, if_pos hbody, if_pos (by omega)]
  rfl

theorem decode_checksum_eq (info : MessageTypeInfo) (buf : DecodeBuffer) :
    ∃ checksum buf', decode_checksum info buf = some (checksum, buf') := by
  rw [decode_checksum]
  by_cases hchecksum : info.has_checksum = true
  · rw [if_pos hchecksum, bind_apply]
    show ∃ checksum buf', ((some (buf.read MESSAGE_CHECKSUM_SIZE)).bind _) = _
    rw [Cursor.read]
    split
    · exact ⟨_, _, rfl⟩
    · exact ⟨_, _, rfl⟩
  · rw [if_neg hchecksum]
    exact ⟨_, _, rfl⟩

-- What happens behind the header.
theorem decode_eq (h : HeaderSize ≤ data.length) :
    decode (Cursor.ofList data) = (do
      let info ← StateT.lift (get_type_info (Header.ofBytes (data.take HeaderSize)).type)
      let body ← decode_body (Header.ofBytes (data.take HeaderSize)).length info
      let checksum ← decode_checksum info
      return ⟨Header.ofBytes (data.take HeaderSize), body, checksum⟩ : Decode Message)
      ((Cursor.ofList data).advance HeaderSize) := by
  have hread : (Cursor.ofList data).read HeaderSize =
      (some (data.take HeaderSize), (Cursor.ofList data).advance HeaderSize) := by
    rw [Cursor.read, Cursor.length_sub_offset, Cursor.rest_ofList, if_neg (by omega)]
  rw [decode, bind_apply]
  show (some ((Cursor.ofList data).read HeaderSize)).bind _ = _
  rw [hread]
  rfl

end Parts

section Outcomes

-- The decode gives a message with the given header and with a body of the given size.
def Gives (data : Bytes) (header : Header) (size : Nat) : Prop :=
  ∃ m buf, decode (Cursor.ofList data) = some (m, buf) ∧ m.header = header ∧ m.bodySize = size

theorem lift_some_bind (next : MessageTypeInfo → Decode Message) (buf : DecodeBuffer) :
    ((StateT.lift (some info) : Decode _) >>= next) buf = next info buf := rfl

variable (h : HeaderSize ≤ data.length)
include h

theorem decode_unknown
    (hunknown : get_type_info (Header.ofBytes (data.take HeaderSize)).type = none) :
    decode (Cursor.ofList data) = none := by
  rw [decode_eq h, hunknown]
  rfl

-- The size of the body would be a huge number, an assertion ends the program before that.
theorem decode_uncovered
    (hknown : get_type_info (Header.ofBytes (data.take HeaderSize)).type = some info)
    (hbody : info.has_body = true)
    (hlength : ¬info.checksum_size ≤ (Header.ofBytes (data.take HeaderSize)).length.toNat) :
    decode (Cursor.ofList data) = none := by
  rw [decode_eq h, hknown, lift_some_bind, bind_apply, decode_body_none hbody hlength]
  rfl

theorem decode_covered
    (hknown : get_type_info (Header.ofBytes (data.take HeaderSize)).type = some info)
    (hbody : info.has_body = true)
    (hlength : info.checksum_size ≤ (Header.ofBytes (data.take HeaderSize)).length.toNat) :
    Gives data (Header.ofBytes (data.take HeaderSize))
      ((Header.ofBytes (data.take HeaderSize)).length.toNat - info.checksum_size) := by
  obtain ⟨body, middle, hdecode, hsize⟩ := decode_body_eq hbody hlength
    ((Cursor.ofList data).advance HeaderSize)
  obtain ⟨checksum, last, hchecksum⟩ := decode_checksum_eq info middle
  rw [Gives, decode_eq h, hknown, lift_some_bind, bind_apply, hdecode, Option.bind_some,
    bind_apply, hchecksum, Option.bind_some]
  exact ⟨_, _, rfl, rfl, hsize⟩

-- Nothing is read behind the header, whatever length it has.
theorem decode_bodiless
    (hknown : get_type_info (Header.ofBytes (data.take HeaderSize)).type = some info)
    (hbody : ¬info.has_body = true) :
    Gives data (Header.ofBytes (data.take HeaderSize)) 0 := by
  have hnone : decode_body (Header.ofBytes (data.take HeaderSize)).length info
      ((Cursor.ofList data).advance HeaderSize) =
      some (none, (Cursor.ofList data).advance HeaderSize) := by
    rw [decode_body, if_neg hbody]
    rfl
  obtain ⟨checksum, last, hchecksum⟩ := decode_checksum_eq info
    ((Cursor.ofList data).advance HeaderSize)
  rw [Gives, decode_eq h, hknown, lift_some_bind, bind_apply, hnone, Option.bind_some,
    bind_apply, hchecksum, Option.bind_some]
  exact ⟨_, _, rfl, rfl, rfl⟩

omit h

theorem not_decodesSafely_of_none (hrun : decode (Cursor.ofList data) = none) :
    ¬DecodesSafely data := by
  rintro ⟨m, buf, info, hsome, -⟩
  rw [hrun] at hsome
  exact absurd hsome (by simp)

-- The message that comes out is the only one there can be.
theorem Gives.fits_iff {header : Header} {size : Nat} (hgives : Gives data header size)
    (hknown : get_type_info header.type = some info) :
    DecodesSafely data ↔
      size ≤ data.length - HeaderSize ∧ size + info.checksum_size = header.length.toNat := by
  obtain ⟨m, buf, hrun, rfl, rfl⟩ := hgives
  constructor
  · rintro ⟨m', buf', info', hrun', hinfo, hroom, hexact⟩
    obtain ⟨rfl, -⟩ := Prod.mk.inj (Option.some.inj (hrun.symm.trans hrun'))
    obtain rfl := Option.some.inj (hknown.symm.trans hinfo)
    exact ⟨hroom, hexact⟩
  · rintro ⟨hroom, hexact⟩
    exact ⟨m, buf, info, hrun, hknown, hroom, hexact⟩

theorem acceptable_iff
    (hknown : get_type_info (Header.ofBytes (data.take HeaderSize)).type = some info) :
    Acceptable data ↔ if info.has_body then
      info.checksum_size ≤ (Header.ofBytes (data.take HeaderSize)).length.toNat ∧
        (Header.ofBytes (data.take HeaderSize)).length.toNat - info.checksum_size ≤
          data.length - HeaderSize
    else (Header.ofBytes (data.take HeaderSize)).length = 0 := by
  constructor
  · rintro ⟨info', hinfo, hfits⟩
    obtain rfl := Option.some.inj (hknown.symm.trans hinfo)
    exact hfits
  · intro hfits
    exact ⟨info, hknown, hfits⟩

end Outcomes

-- There is no failure to report: a message comes out, or an assertion ends the program.
theorem decodesSafely_iff (h : HeaderSize ≤ data.length) :
    DecodesSafely data ↔ Acceptable data := by
  cases hknown : get_type_info (Header.ofBytes (data.take HeaderSize)).type with
  | none =>
      apply iff_of_false
      · exact not_decodesSafely_of_none (decode_unknown h hknown)
      · rintro ⟨info, hinfo, -⟩
        exact absurd (hknown.symm.trans hinfo) (by simp)
  | some info =>
      rw [acceptable_iff hknown]
      by_cases hbody : info.has_body = true
      · rw [if_pos hbody]
        by_cases hlength :
            info.checksum_size ≤ (Header.ofBytes (data.take HeaderSize)).length.toNat
        · rw [(decode_covered h hknown hbody hlength).fits_iff hknown]
          omega
        · apply iff_of_false
          · exact not_decodesSafely_of_none (decode_uncovered h hknown hbody hlength)
          · exact fun hfits => hlength hfits.1
      · have hsize : info.checksum_size = 0 := by
          rw [MessageTypeInfo.checksum_size, if_neg]
          intro hchecksum
          exact hbody (has_body_of_has_checksum hknown hchecksum).1
        rw [if_neg hbody, (decode_bodiless h hknown hbody).fits_iff hknown, hsize]
        rw [← UInt16.toNat_inj]
        show 0 ≤ _ ∧ 0 + 0 = _ ↔ _ = 0
        omega

-- An answer to a handshake.
theorem response_decodesSafely_iff :
    DecodesSafely [0x02, 0x00, 0x01, 0x00, 0x00] ↔ Acceptable [0x02, 0x00, 0x01, 0x00, 0x00] :=
  decodesSafely_iff (by decide)

-- A header with a type that there is not.
theorem unknown_not_decodesSafely :
    ¬∀ data : Bytes, HeaderSize ≤ data.length → DecodesSafely data := by
  intro h
  obtain ⟨m, buf, info, hrun, -⟩ := h [0x00, 0x00, 0x09] (by decide)
  exact absurd (show none = some (m, buf) from hrun) (by simp)

end RoboCrisp.Comms.Message
