import RoboCrisp.Comms.Message.Frame

namespace RoboCrisp.Comms

open RoboCrisp.Stream RoboCrisp.Util

-- What is decoded from `bytes` is encoded to `wire` again, in any buffer that has room for it.
def Message.Forwards (bytes wire : Bytes) : Prop :=
  ∃ received rest, Message.decode (Cursor.ofList bytes) = some (received, rest) ∧
    ∀ buf : MemoryEncodeBuffer, wire.length ≤ buf.free →
      received.encode buf = some (.SUCCESS, buf.append wire)

theorem body_none_iff {type : MessageType} {info : MessageTypeInfo}
    (h : get_type_info type = some info) : info.body = none ↔ type ≠ .SYNC := by
  constructor
  · rintro hbody rfl
    obtain rfl := Option.some.inj h
    exact absurd hbody (by simp)
  · intro hne
    cases hbody : info.body with
    | none => rfl
    | some text => exact absurd (sync_of_body h hbody).1 hne

namespace Frame

variable {f : Frame} {bytes : Bytes}

theorem message_represents (hintact : f.Intact) (hfixed : f.Fixed) (hbody : f.info.body = none) :
    f.message.Represents f where
  header_eq := rfl
  body_eq := by simp [message, hbody]
  intact := hintact
  fixed := hfixed

-- The receiver stores a body for every type that has one, and the encoder wants none for a
-- type that brings its own.
theorem encode_body_of_text {text : CString} (htext : f.info.body = some text) :
    f.message.encode_body f.info = StateT.lift none := by
  have hbody := (has_body_of_body f.known htext).1
  simp only [Message.encode_body, message, hbody, htext, if_true]

theorem encode_of_text {text : CString} (htext : f.info.body = some text)
    (buf : MemoryEncodeBuffer) : f.message.encode buf = none := by
  have hknown : get_type_info f.message.header.type = some f.info := f.known
  rw [Option.eq_none_iff_forall_ne_some]
  rintro ⟨er, last⟩ hencode
  obtain ⟨_, _, -, hencode⟩ := bind_eq_some_iff.mp hencode
  obtain ⟨info, _, hinfo, hencode⟩ := bind_eq_some_iff.mp hencode
  obtain ⟨_, _, hencode, -⟩ := bind_eq_some_iff.mp hencode
  obtain ⟨hinfo, rfl⟩ := lift_eq_some_iff.mp hinfo
  obtain rfl := Option.some.inj (hknown.symm.trans hinfo)
  rw [encode_body_of_text htext] at hencode
  exact absurd (lift_eq_some_iff.mp hencode).1 (by simp)

-- A received frame can be sent on unless it is a SYNC.
theorem forwards_iff (f : Frame) (hintact : f.Intact) (hfixed : f.Fixed)
    (hbytes : f.wire <+: bytes) : Message.Forwards bytes f.wire ↔ f.type ≠ .SYNC := by
  obtain ⟨back, rfl⟩ := hbytes
  obtain ⟨rest, hdecode⟩ := f.decode_eq back
  rw [← body_none_iff f.known]
  constructor
  · rintro ⟨received, rest', hreceived, hencode⟩
    obtain rfl := (Prod.mk.inj (Option.some.inj (hdecode.symm.trans hreceived))).1
    by_contra hbody
    obtain ⟨text, htext⟩ := Option.ne_none_iff_exists'.mp hbody
    have hroom := hencode (MemoryEncodeBuffer.alloc f.wire.length)
    rw [encode_of_text htext] at hroom
    exact absurd (hroom (by simp [Sink.free_eq, MemoryEncodeBuffer.alloc, Sink.ofList])) (by simp)
  · intro hbody
    have hrep := message_represents hintact hfixed hbody
    refine ⟨f.message, rest, hdecode, fun buf hroom => ?_⟩
    have hstores := hrep.emits.stores
    rw [f.wire_pieces] at hstores
    exact hstores buf hroom

-- An ERROR without a text.
def blank : Frame where
  type := .ERROR
  info := ⟨.ERROR, true, true, none⟩
  known := rfl
  body := []
  checksum := crc32 [4, 0, 3]
  no_body := by simp
  no_checksum := by simp
  length_lt := by decide

theorem blank_forwards : Message.Forwards (blank.wire ++ [0]) blank.wire :=
  (blank.forwards_iff (fun _ => rfl) (fun text h => absurd h (by simp [blank]))
    (List.prefix_append _ _)).mpr (by decide)

def sync : Frame where
  type := .SYNC
  info := ⟨.SYNC, true, false, some ⟨[0x53, 0x59, 0x4E, 0x43], sync_no_nul⟩⟩
  known := rfl
  body := [0x53, 0x59, 0x4E, 0x43]
  checksum := 0
  no_body := by simp
  no_checksum := by simp
  length_lt := by decide

theorem sync_not_forwards : sync.Intact ∧ sync.Fixed ∧ ¬Message.Forwards sync.wire sync.wire := by
  refine ⟨fun h => absurd h (by simp [sync]), fun text h => ?_, ?_⟩
  · obtain rfl := Option.some.inj h
    rfl
  · rintro ⟨received, rest, hreceived, hencode⟩
    obtain ⟨rest', hdecode⟩ := sync.decode_eq []
    rw [List.append_nil] at hdecode
    obtain rfl := (Prod.mk.inj (Option.some.inj (hdecode.symm.trans hreceived))).1
    have hroom := hencode (MemoryEncodeBuffer.alloc sync.wire.length) (by decide)
    rw [encode_of_text rfl] at hroom
    exact absurd hroom (by simp)

end Frame

end RoboCrisp.Comms
