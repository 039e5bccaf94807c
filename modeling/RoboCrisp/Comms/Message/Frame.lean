import RoboCrisp.Comms.Message

namespace RoboCrisp.Comms

open RoboCrisp.Stream RoboCrisp.Util

section TypeInfo

variable {type : MessageType} {info : MessageTypeInfo}

theorem mem_of_get_type_info (h : get_type_info type = some info) : info ∈ message_type_info := by
  obtain ⟨entry, hget, hentry⟩ := Option.bind_eq_some_iff.mp h
  split at hentry
  · obtain rfl := Option.some.inj hentry
    exact List.mem_of_getElem? hget
  · exact absurd hentry (by simp)

theorem has_body_of_has_checksum (h : get_type_info type = some info)
    (hchecksum : info.has_checksum = true) : info.has_body = true ∧ info.body = none := by
  have hmem := mem_of_get_type_info h
  simp only [message_type_info, List.mem_cons, List.not_mem_nil, or_false] at hmem
  rcases hmem with rfl | rfl | rfl | rfl | rfl | rfl | rfl | rfl <;> simp at hchecksum ⊢

theorem has_body_of_body (h : get_type_info type = some info) {text : CString}
    (hbody : info.body = some text) : info.has_body = true ∧ info.has_checksum = false := by
  have hmem := mem_of_get_type_info h
  simp only [message_type_info, List.mem_cons, List.not_mem_nil, or_false] at hmem
  rcases hmem with rfl | rfl | rfl | rfl | rfl | rfl | rfl | rfl <;> simp at hbody ⊢

theorem sync_of_body (h : get_type_info type = some info) {text : CString}
    (hbody : info.body = some text) : type = .SYNC ∧ strlen text = 4 := by
  obtain ⟨entry, hget, hentry⟩ := Option.bind_eq_some_iff.mp h
  split at hentry
  · rename_i htype
    obtain rfl := Option.some.inj hentry
    have hmem := List.mem_of_getElem? hget
    simp only [message_type_info, List.mem_cons, List.not_mem_nil, or_false] at hmem
    rcases hmem with rfl | rfl | rfl | rfl | rfl | rfl | rfl | rfl <;> simp at hbody
    rw [← htype, ← hbody]
    exact ⟨rfl, rfl⟩
  · exact absurd hentry (by simp)

end TypeInfo

@[simp] theorem Header.length_bytes (header : Header) : header.bytes.length = Message.HeaderSize := by
  simp [Header.bytes, Message.HeaderSize]

@[simp] theorem Header.ofBytes_bytes (header : Header) : Header.ofBytes header.bytes = header := by
  obtain ⟨length, type⟩ := header
  have htake : (Header.bytes ⟨length, type⟩).take 2 = littleEndian 2 length.toNat :=
    List.take_left' (length_littleEndian 2 _)
  have hlt : length.toNat < 256 ^ 2 := length.toNat_lt
  rw [Header.ofBytes, htake, ofLittleEndian_littleEndian_of_lt hlt, UInt16.ofNat_toNat]
  rfl

-- What stands on the wire for one message: a type with its entry, as many bytes behind the
-- header as its length says, and whatever is in the place of the checksum.
structure Frame where
  type : MessageType
  info : MessageTypeInfo
  known : get_type_info type = some info
  body : Bytes
  checksum : UInt32
  no_body : info.has_body = false → body = []
  no_checksum : info.has_checksum = false → checksum = 0
  length_lt : body.length + info.checksum_size < 2 ^ 16

namespace Frame

def header (f : Frame) : Header := ⟨UInt16.ofNat (f.body.length + f.info.checksum_size), f.type⟩

def checksumBytes (f : Frame) : Bytes :=
  if f.info.has_checksum then littleEndian MESSAGE_CHECKSUM_SIZE f.checksum.toNat else []

def wire (f : Frame) : Bytes := f.header.bytes ++ (f.body ++ f.checksumBytes)

-- What a receiver makes of the frame.
def message (f : Frame) : Message :=
  ⟨f.header, if f.info.has_body then some f.body else none, f.checksum⟩

-- The checksum is the one of the header and the body.
def Intact (f : Frame) : Prop :=
  f.info.has_checksum = true → f.checksum = crc32 (f.header.bytes ++ f.body)

-- A type that brings its body along is sent with that body.
def Fixed (f : Frame) : Prop := ∀ text, f.info.body = some text → f.body = text.chars

variable (f : Frame)

theorem length_eq : f.header.length.toNat = f.body.length + f.info.checksum_size := by
  rw [header, UInt16.toNat_ofNat', Nat.mod_eq_of_lt f.length_lt]

theorem length_checksumBytes : f.checksumBytes.length = f.info.checksum_size := by
  rw [checksumBytes, MessageTypeInfo.checksum_size]
  split
  · rw [length_littleEndian]
  · rfl

theorem length_wire : f.wire.length = Message.HeaderSize + f.header.length.toNat := by
  rw [wire, List.length_append, List.length_append, Header.length_bytes, length_checksumBytes,
    length_eq]

theorem consumes_decode_body :
    Decoder.Consumes (Message.decode_body f.header.length f.info) f.body f.message.body := by
  rw [Message.decode_body, message]
  by_cases hbody : f.info.has_body = true
  · rw [if_pos hbody, if_pos hbody, length_eq, if_neg (by omega), Nat.add_sub_cancel]
    exact (Decoder.Consumes.read rfl).bind_last (Decoder.Consumes.pure _)
  · rw [if_neg hbody, if_neg hbody, f.no_body (by simpa using hbody)]
    exact Decoder.Consumes.pure _

theorem consumes_decode_checksum :
    Decoder.Consumes (Message.decode_checksum f.info) f.checksumBytes f.checksum := by
  rw [Message.decode_checksum, checksumBytes]
  by_cases hchecksum : f.info.has_checksum = true
  · rw [if_pos hchecksum, if_pos hchecksum]
    refine (Decoder.Consumes.read (length_littleEndian _ _)).bind_last ?_
    have hlt : f.checksum.toNat < 256 ^ MESSAGE_CHECKSUM_SIZE := f.checksum.toNat_lt
    simp only [ofLittleEndian_littleEndian_of_lt hlt, UInt32.ofNat_toNat]
    exact Decoder.Consumes.pure _
  · rw [if_neg hchecksum, if_neg hchecksum, f.no_checksum (by simpa using hchecksum)]
    exact Decoder.Consumes.pure _

theorem consumes_decode : Decoder.Consumes Message.decode f.wire f.message := by
  refine (Decoder.Consumes.read f.header.length_bytes).bind ?_
  simp only [Header.ofBytes_bytes]
  refine (Decoder.Consumes.lift f.known).bind_nil ?_
  refine f.consumes_decode_body.bind (f.consumes_decode_checksum.bind_last ?_)
  exact Decoder.Consumes.pure _

theorem decode_eq (back : Bytes) : ∃ buf, Message.decode (Cursor.ofList (f.wire ++ back)) =
    some (f.message, buf) :=
  ⟨_, f.consumes_decode (Cursor.ofList (f.wire ++ back)) back rfl⟩

theorem compute_checksum_eq : f.message.compute_checksum =
    some (if f.info.has_checksum then crc32 (f.header.bytes ++ f.body) else 0) := by
  have hknown : get_type_info f.message.header.type = some f.info := f.known
  rw [Message.compute_checksum, hknown]
  by_cases hchecksum : f.info.has_checksum = true
  · have hbody : f.message.body = some f.body :=
      if_pos (has_body_of_has_checksum f.known hchecksum).1
    simp only [Option.bind_eq_bind, Option.bind_some, if_pos hchecksum, hbody]
    rfl
  · simp only [Option.bind_eq_bind, Option.bind_some, if_neg hchecksum]
    rfl

-- The receiver's test finds out whether the frame is intact.
theorem checksum_ok_eq : ∃ ok, f.message.checksum_ok = some ok ∧ (ok = true ↔ f.Intact) := by
  have hknown : get_type_info f.message.header.type = some f.info := f.known
  rw [Message.checksum_ok, hknown, compute_checksum_eq]
  by_cases hchecksum : f.info.has_checksum = true
  · refine ⟨_, by simp only [Option.bind_eq_bind, Option.bind_some, if_pos hchecksum]; rfl, ?_⟩
    rw [beq_iff_eq]
    exact ⟨fun h _ => h, fun h => h hchecksum⟩
  · exact ⟨_, by simp only [Option.bind_eq_bind, Option.bind_some, if_neg hchecksum]; rfl,
      fun _ h => absurd h hchecksum, fun _ => rfl⟩

end Frame

section Announced

variable {header : Header} {info : MessageTypeInfo}

-- The size that an object with just the header announces: the one of the header, unless the
-- type brings its body along.
theorem Message.get_encoded_size_of_header (h : get_type_info header.type = some info)
    (hbody : info.body = none) : ({ Message.empty with header } : Message).get_encoded_size =
      some (Message.HeaderSize + header.length.toNat) := by
  have hcheck : ¬(info.has_checksum = true ∧ info.has_body = false) := fun hbad =>
    absurd hbad.2 (by rw [(has_body_of_has_checksum h hbad.1).1]; decide)
  simp only [Message.get_encoded_size, h, Option.bind_eq_bind, Option.bind_some, if_neg hcheck,
    Message.content, Message.empty, hbody]
  rfl

theorem Message.get_encoded_size_of_text {text : CString} (h : get_type_info header.type = some info)
    (hbody : info.body = some text) : ({ Message.empty with header } : Message).get_encoded_size =
      some (Message.HeaderSize + strlen text) := by
  obtain ⟨hhas, hcheck⟩ := has_body_of_body h hbody
  simp only [Message.get_encoded_size, h, Option.bind_eq_bind, Option.bind_some, Message.content,
    Message.empty, hbody, hhas, hcheck, MessageTypeInfo.checksum_size]
  rfl

end Announced

-- An encoder of a message has nothing else to report.
theorem Message.encode_success {m : Message} {sink last : MemoryEncodeBuffer} {er : EncodeResult}
    (h : m.encode sink = some (er, last)) : er = .SUCCESS := by
  obtain ⟨_, _, -, h⟩ := bind_eq_some_iff.mp h
  obtain ⟨_, _, -, h⟩ := bind_eq_some_iff.mp h
  obtain ⟨_, _, -, h⟩ := bind_eq_some_iff.mp h
  obtain ⟨_, _, -, h⟩ := bind_eq_some_iff.mp h
  exact (Prod.mk.inj (pure_eq_some_iff.mp h)).1.symm

-- The object that a sender holds for a frame. Where the type brings the body along, the
-- object has none.
structure Message.Represents (m : Message) (f : Frame) : Prop where
  header_eq : m.header = f.header
  body_eq : m.body = if f.info.has_body = true ∧ f.info.body = none then some f.body else none
  intact : f.Intact
  fixed : f.Fixed

namespace Message.Represents

variable {m : Message} {f : Frame}

theorem get_type_info_eq (h : m.Represents f) : get_type_info m.header.type = some f.info := by
  rw [h.header_eq]
  exact f.known

theorem body_of_has_checksum (h : m.Represents f) (hchecksum : f.info.has_checksum = true) :
    m.body = some f.body := by
  rw [h.body_eq, if_pos (has_body_of_has_checksum f.known hchecksum)]

theorem compute_checksum_eq (h : m.Represents f) : m.compute_checksum = some f.checksum := by
  rw [compute_checksum, h.get_type_info_eq]
  by_cases hchecksum : f.info.has_checksum = true
  · simp only [Option.bind_eq_bind, Option.bind_some, if_pos hchecksum,
      h.body_of_has_checksum hchecksum, h.header_eq]
    exact congrArg some (h.intact hchecksum).symm
  · simp only [Option.bind_eq_bind, Option.bind_some, if_neg hchecksum]
    exact congrArg some (f.no_checksum (by simpa using hchecksum)).symm

theorem content_eq (h : m.Represents f) (hbody : f.info.has_body = true) :
    m.content f.info = some f.body := by
  rw [content, h.body_eq]
  cases htext : f.info.body with
  | none =>
      rw [if_pos ⟨hbody, rfl⟩]
  | some text =>
      rw [if_neg (fun hboth => Option.some_ne_none text hboth.2), h.fixed text htext]
      rfl

theorem get_encoded_size_eq (h : m.Represents f) : m.get_encoded_size = some f.wire.length := by
  rw [get_encoded_size, h.get_type_info_eq, Option.bind_eq_bind, Option.bind_some,
    if_neg (fun hbad => by
      have hbody := (has_body_of_has_checksum f.known hbad.1).1
      rw [hbad.2] at hbody
      exact absurd hbody (by decide))]
  by_cases hbody : f.info.has_body = true
  · rw [h.content_eq hbody]
    simp only [if_pos hbody, f.length_wire, f.length_eq, ← Nat.add_assoc]
    rfl
  · -- no body and no checksum either: the length is taken from the header
    have hnone : m.content f.info = none := by
      have htext : f.info.body = none := by
        cases htext : f.info.body with
        | none => rfl
        | some text => exact absurd (has_body_of_body f.known htext).1 hbody
      rw [content, h.body_eq, if_neg (fun hboth => hbody hboth.1), htext]
      rfl
    rw [hnone, f.length_wire, h.header_eq]
    rfl

end Message.Represents

namespace Frame

def pieces (f : Frame) : List (Piece UInt8) :=
  ⟨f.header.bytes, false⟩ ::
    ((if f.info.has_body then [⟨f.body, false⟩] else []) ++
      if f.info.has_checksum then [⟨f.checksumBytes, false⟩] else [])

theorem wire_pieces (f : Frame) : Stream.wire f.pieces = f.wire := by
  have hbody : Stream.wire (if f.info.has_body then [⟨f.body, false⟩] else []) = f.body := by
    by_cases h : f.info.has_body = true
    · simp [h]
    · simp [h, f.no_body (by simpa using h)]
  have hchecksum :
      Stream.wire (if f.info.has_checksum then [⟨f.checksumBytes, false⟩] else []) =
        f.checksumBytes := by
    by_cases h : f.info.has_checksum = true
    · simp [h]
    · simp [h, checksumBytes]
  rw [pieces, wire_cons, wire_append, hbody, hchecksum, wire]

theorem unchecked (f : Frame) : ∀ piece ∈ f.pieces, piece.checked = false := by
  intro piece hpiece
  rw [pieces, List.mem_cons, List.mem_append] at hpiece
  rcases hpiece with rfl | hbody | hchecksum
  · rfl
  · split at hbody
    · rw [List.mem_singleton.mp hbody]
    · exact absurd hbody List.not_mem_nil
  · split at hchecksum
    · rw [List.mem_singleton.mp hchecksum]
    · exact absurd hchecksum List.not_mem_nil

end Frame

namespace Message.Represents

variable {m : Message} {f : Frame}

theorem encode_body_eq (h : m.Represents f) :
    m.encode_body f.info = if f.info.has_body then write f.body else pure .SUCCESS := by
  rw [encode_body, h.body_eq]
  cases htext : f.info.body with
  | none =>
      by_cases hbody : f.info.has_body = true
      · rw [if_pos hbody, if_pos hbody, if_pos ⟨hbody, rfl⟩]
      · rw [if_neg hbody, if_neg hbody]
  | some text =>
      have hbody := (has_body_of_body f.known htext).1
      rw [if_pos hbody, if_pos hbody, if_neg (fun hboth => Option.some_ne_none text hboth.2),
        h.fixed text htext]

theorem encode_checksum_eq (h : m.Represents f) :
    m.encode_checksum f.info =
      if f.info.has_checksum then write f.checksumBytes else pure .SUCCESS := by
  rw [encode_checksum, h.compute_checksum_eq, Frame.checksumBytes]
  by_cases hchecksum : f.info.has_checksum = true
  · simp only [if_pos hchecksum]
    rfl
  · simp only [if_neg hchecksum]

theorem emits (h : m.Represents f) : Emits m.encode f.pieces := by
  have hencode : m.encode = (do
      let _ ← write f.header.bytes
      let _ ← m.encode_body f.info
      let _ ← m.encode_checksum f.info
      return .SUCCESS) := by
    rw [encode, h.get_type_info_eq, h.header_eq]
    rfl
  have hlast : Emits (do
      let _ ← m.encode_checksum f.info
      return .SUCCESS)
      (if f.info.has_checksum then [⟨f.checksumBytes, false⟩] else []) := by
    rw [h.encode_checksum_eq]
    by_cases hchecksum : f.info.has_checksum = true
    · rw [if_pos hchecksum, if_pos hchecksum]
      exact Encoder.Emits.write_ignored _ Encoder.Emits.pure
    · rw [if_neg hchecksum, if_neg hchecksum]
      exact Encoder.Emits.pure
  rw [hencode]
  refine Encoder.Emits.write_ignored _ ?_
  rw [h.encode_body_eq]
  by_cases hbody : f.info.has_body = true
  · rw [if_pos hbody, if_pos hbody]
    exact Encoder.Emits.write_ignored _ hlast
  · rw [if_neg hbody, if_neg hbody]
    exact hlast

end Message.Represents

end RoboCrisp.Comms
