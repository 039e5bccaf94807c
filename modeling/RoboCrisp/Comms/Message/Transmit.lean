import RoboCrisp.Comms.Message.RoundTrip

namespace RoboCrisp.Comms

open RoboCrisp.Stream RoboCrisp.Util

-- What the receiver makes of the bytes that send_loop writes for a message.
def transmit (m : Message) : Option Message := do
  let bytes ← BasicNode.send_bytes m
  let (received, _) ← Message.decode (Cursor.ofList bytes)
  return received

namespace Message

variable {m received : Message} {b : Body} {bytes : Bytes}

theorem type_of_ofBody (h : ofBody b = some m) : m.header.type = b.type := by
  rw [ofBody] at h
  obtain ⟨info, -, h⟩ := Option.bind_eq_some_iff.mp h
  obtain ⟨size, -, h⟩ := Option.bind_eq_some_iff.mp h
  obtain ⟨⟨r, eb⟩, -, h⟩ := Option.bind_eq_some_iff.mp h
  obtain ⟨body, -, h⟩ := Option.bind_eq_some_iff.mp h
  obtain ⟨checksum, -, h⟩ := Option.bind_eq_some_iff.mp h
  obtain rfl := Option.some.inj h
  rfl

theorem type_of_ofType {_type : MessageType} (h : ofType _type = some m) : m.header.type = _type := by
  obtain ⟨size, -, h⟩ := Option.bind_eq_some_iff.mp h
  obtain rfl := Option.some.inj h
  rfl

theorem headerSize_le {size : Nat} (h : m.get_encoded_size = some size) : HeaderSize ≤ size := by
  rw [get_encoded_size] at h
  obtain ⟨info, -, h⟩ := Option.bind_eq_some_iff.mp h
  obtain ⟨-, h⟩ := Option.ite_none_left_eq_some.mp h
  split at h
  · rw [← Option.some.inj h]
    exact Nat.le_add_right _ _
  · rw [← Option.some.inj h, Nat.add_assoc]
    exact Nat.le_add_right _ _

theorem encode_body_appends (m : Message) (info : MessageTypeInfo) :
    Encoder.Appends (m.encode_body info) := by
  rw [encode_body]
  split
  · split
    · exact Encoder.Appends.write _
    · exact Encoder.Appends.write _
    · intro sink result last h
      exact absurd (lift_eq_some_iff.mp h).1 (by simp)
  · exact Encoder.Appends.pure _

theorem encode_checksum_appends (m : Message) (info : MessageTypeInfo) :
    Encoder.Appends (m.encode_checksum info) := by
  rw [encode_checksum]
  split
  · exact Encoder.Appends.lift_bind fun checksum => Encoder.Appends.write _
  · exact Encoder.Appends.pure _

-- Whatever the message is like, the header comes first.
theorem header_of_send_bytes (h : BasicNode.send_bytes m = some bytes) : m.header.bytes <+: bytes := by
  rw [BasicNode.send_bytes] at h
  obtain ⟨size, hsize, h⟩ := Option.bind_eq_some_iff.mp h
  obtain ⟨⟨er, meb⟩, hencode, h⟩ := Option.bind_eq_some_iff.mp h
  obtain rfl := encode_success hencode
  obtain rfl := Option.some.inj h
  have hfree : m.header.bytes.length ≤ (MemoryEncodeBuffer.alloc size).free := by
    rw [Sink.free_eq, Header.length_bytes]
    exact le_trans (headerSize_le hsize) (le_of_eq List.length_replicate.symm)
  have happends : Encoder.Appends (do
      let info ← StateT.lift (get_type_info m.header.type)
      let _ ← m.encode_body info
      let _ ← m.encode_checksum info
      return EncodeResult.SUCCESS) :=
    Encoder.Appends.lift_bind fun info => (encode_body_appends m info).bind fun _ =>
      (encode_checksum_appends m info).bind fun _ => Encoder.Appends.pure _
  have htake : meb.data.take meb.offset = meb.written := List.take_left
  rw [htake]
  exact Encoder.Appends.after_write (fun _ => happends) hfree hencode

theorem type_of_transmit (h : transmit m = some received) : received.header.type = m.header.type := by
  obtain ⟨bytes, hbytes, h⟩ := Option.bind_eq_some_iff.mp h
  obtain ⟨⟨decoded, last⟩, hdecode, h⟩ := Option.bind_eq_some_iff.mp h
  obtain rfl := Option.some.inj h
  obtain ⟨back, rfl⟩ := header_of_send_bytes hbytes
  obtain ⟨header, middle, hread, hdecode⟩ := bind_eq_some_iff.mp hdecode
  have hconsumes : Decoder.Consumes (read HeaderSize) m.header.bytes (some m.header.bytes) :=
    Decoder.Consumes.read m.header.length_bytes
  have hown := hconsumes (Cursor.ofList (m.header.bytes ++ back)) back rfl
  obtain ⟨rfl, -⟩ := Prod.mk.inj (Option.some.inj (hown.symm.trans hread))
  obtain ⟨info, _, -, hdecode⟩ := bind_eq_some_iff.mp hdecode
  obtain ⟨body, _, -, hdecode⟩ := bind_eq_some_iff.mp hdecode
  obtain ⟨checksum, _, -, hdecode⟩ := bind_eq_some_iff.mp hdecode
  obtain ⟨rfl, -⟩ := Prod.mk.inj (pure_eq_some_iff.mp hdecode)
  exact congrArg Header.type m.header.ofBytes_bytes

-- A body of a size that the header can name comes through as it is.
theorem body_of_transmit {info : MessageTypeInfo} (hencodes : b.Encodes bytes)
    (hknown : get_type_info b.type = some info) (hsize : bytes.length + info.checksum_size ≤ 65535)
    (hm : ofBody b = some m) (h : transmit m = some received) :
    m.body = some bytes ∧ received.body = some bytes := by
  obtain ⟨own, hown, hbytes⟩ := hencodes.exists_ofBody
  obtain rfl : m = own := Option.some.inj (hm.symm.trans hown)
  have hroom : ∀ info' size, get_type_info b.type = some info' → b.get_encoded_size = some size →
      size + info'.checksum_size ≤ 65535 := by
    intro info' size hinfo hencoded
    rw [hknown] at hinfo
    rw [hencodes.1] at hencoded
    rw [← Option.some.inj hinfo, ← Option.some.inj hencoded]
    exact hsize
  obtain ⟨f, hrep, htype⟩ := exists_represents_body hm hroom
  obtain ⟨info', hknown', hhas, hnone⟩ := get_type_info_body b
  obtain rfl : info' = f.info := Option.some.inj (hknown'.symm.trans (htype ▸ f.known))
  have hbody := hrep.body_eq
  rw [if_pos ⟨hhas, hnone⟩, hbytes] at hbody
  obtain ⟨sent, hsent, h⟩ := Option.bind_eq_some_iff.mp h
  obtain rfl := Option.some.inj ((BasicNode.send_bytes_eq hrep).symm.trans hsent)
  have hdecode := f.consumes_decode (Cursor.ofList f.wire) [] (List.append_nil _).symm
  rw [hdecode] at h
  obtain rfl := Option.some.inj h
  exact ⟨hbytes, (if_pos hhas).trans hbody.symm⟩

end Message

end RoboCrisp.Comms
