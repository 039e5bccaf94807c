import RoboCrisp.Comms.Message.Frame

namespace RoboCrisp.Comms

open RoboCrisp.Stream RoboCrisp.Util

-- A method that writes to a StreamEncodeBuffer, which hands all of it to an ostream and has no
-- failure to report.
abbrev StreamEncode := StateT Bytes Option EncodeResult

-- StreamEncodeBuffer::write
def write_stream (bytes : Bytes) : StreamEncode := fun stream => some (.SUCCESS, stream ++ bytes)

namespace Message

-- The message has a body or its type does, or there is none at all.
def has_one_body (m : Message) (info : MessageTypeInfo) : Bool :=
  (m.body.isSome && info.body.isNone) || (info.body.isSome && m.body.isNone) ||
    (m.body.isNone && info.body.isNone && !info.has_body)

def encode_stream_body (m : Message) (info : MessageTypeInfo) : StreamEncode :=
  if info.has_body then do
    let body ← StateT.lift (m.content info)
    write_stream body
  else pure .SUCCESS

def encode_stream_checksum (m : Message) (info : MessageTypeInfo) : StreamEncode :=
  if info.has_checksum then do
    let checksum ← StateT.lift m.compute_checksum
    write_stream (littleEndian MESSAGE_CHECKSUM_SIZE checksum.toNat)
  else pure .SUCCESS

-- encode(StreamEncodeBuffer& buf). The checksum is computed once before the assertion and once
-- behind it.
def encode_stream (m : Message) : StreamEncode := do
  let _ ← write_stream m.header.bytes
  let info ← StateT.lift (get_type_info m.header.type)
  let _ ← StateT.lift
    (if info.has_checksum && m.checksum == 0 then m.compute_checksum else some m.checksum)
  let _ ← StateT.lift (if m.has_one_body info then some () else none)
  let _ ← m.encode_stream_body info
  let _ ← m.encode_stream_checksum info
  return .SUCCESS

-- encode(MemoryEncodeBuffer& buf, MessageType _type). A type with a body has to bring it along.
def encode_type (_type : MessageType) : Encode := do
  let info ← StateT.lift (get_type_info _type)
  let _ ← StateT.lift (if info.has_checksum && !info.has_body then none else some ())
  let _ ← StateT.lift (if info.has_body && info.body.isNone then none else some ())
  let length := (info.body.elim 0 strlen) + info.checksum_size
  let m := { empty with header := ⟨UInt16.ofNat length, _type⟩ }
  let _ ← write m.header.bytes
  let _ ← if info.has_body then do
      let text ← StateT.lift info.body
      write (text.chars.take (m.header.length.toNat - info.checksum_size))
    else pure .SUCCESS
  let _ ← if info.has_checksum then do
      let checksum ← StateT.lift m.compute_checksum
      write (littleEndian MESSAGE_CHECKSUM_SIZE checksum.toNat)
    else pure .SUCCESS
  return .SUCCESS

-- What a message is written in, unless an assertion fails.
def body_chunks (m : Message) (info : MessageTypeInfo) : Option (List Bytes) :=
  if info.has_body then
    if m.has_one_body info then (m.content info).map fun body => [body] else none
  else some []

def checksum_chunks (m : Message) (info : MessageTypeInfo) : Option (List Bytes) :=
  if info.has_checksum then
    m.compute_checksum.map fun checksum => [littleEndian MESSAGE_CHECKSUM_SIZE checksum.toNat]
  else some []

def chunks (m : Message) : Option (List Bytes) := do
  let info ← get_type_info m.header.type
  let body ← m.body_chunks info
  let checksum ← m.checksum_chunks info
  return m.header.bytes :: (body ++ checksum)

-- Nobody looks at the result of a write.
def unchecked (chunks : List Bytes) : List (Piece UInt8) := chunks.map (⟨·, false⟩)

variable {m : Message} {info : MessageTypeInfo} {type : MessageType}

theorem lift_apply {σ α : Type} (value : Option α) (state : σ) :
    (StateT.lift value : StateT σ Option α) state = value.map fun a => (a, state) := by
  cases value <;> rfl

theorem encode_stream_body_apply (h : m.has_one_body info = true) (stream : Bytes) :
    m.encode_stream_body info stream =
      (m.body_chunks info).map fun chunks => (.SUCCESS, stream ++ chunks.flatten) := by
  rw [encode_stream_body, body_chunks, if_pos h]
  cases info.has_body with
  | false => simp [pure_apply]
  | true => cases hcontent : m.content info <;> simp [bind_apply, lift_apply, write_stream]

theorem encode_stream_checksum_apply (m : Message) (info : MessageTypeInfo) (stream : Bytes) :
    m.encode_stream_checksum info stream =
      (m.checksum_chunks info).map fun chunks => (.SUCCESS, stream ++ chunks.flatten) := by
  rw [encode_stream_checksum, checksum_chunks]
  cases info.has_checksum with
  | false => simp [pure_apply]
  | true => cases m.compute_checksum <;> simp [bind_apply, lift_apply, write_stream]

theorem has_body_of_not_has_one_body (hinfo : get_type_info m.header.type = some info)
    (h : m.has_one_body info = false) : info.has_body = true := by
  cases hbody : info.has_body with
  | true => rfl
  | false =>
      cases htext : info.body with
      | some text => exact absurd (has_body_of_body hinfo htext).1 (by simp [hbody])
      | none => cases hm : m.body <;> simp [has_one_body, hbody, htext, hm] at h

-- A message that gets past the assertion has what its checksum is computed of.
theorem exists_checksum_of_has_one_body (hinfo : get_type_info m.header.type = some info)
    (h : m.has_one_body info = true) : ∃ checksum, m.compute_checksum = some checksum := by
  cases hchecksum : info.has_checksum with
  | false => exact ⟨0, by simp [compute_checksum, hinfo, hchecksum]⟩
  | true =>
      obtain ⟨hbody, htext⟩ := has_body_of_has_checksum hinfo hchecksum
      cases hm : m.body with
      | none => simp [has_one_body, hbody, htext, hm] at h
      | some body => exact ⟨_, by simp [compute_checksum, hinfo, hchecksum, hm]; rfl⟩

theorem encode_stream_eq (m : Message) (stream : Bytes) :
    m.encode_stream stream = m.chunks.map fun chunks => (.SUCCESS, stream ++ chunks.flatten) := by
  unfold encode_stream chunks
  simp only [bind_apply, write_stream, lift_apply, Option.bind_some, Option.bind_eq_bind]
  cases hinfo : get_type_info m.header.type with
  | none => rfl
  | some info =>
      simp only [Option.map_some, Option.bind_some]
      cases hone : m.has_one_body info with
      | false =>
          have hbody := has_body_of_not_has_one_body hinfo hone
          have hnone : m.body_chunks info = none := by
            rw [body_chunks, if_pos hbody, hone]
            rfl
          rw [hnone]
          generalize (if info.has_checksum && m.checksum == 0 then m.compute_checksum
            else some m.checksum) = first
          cases first <;> rfl
      | true =>
          obtain ⟨checksum, hchecksum⟩ := exists_checksum_of_has_one_body hinfo hone
          have hfirst : ∃ first, (if info.has_checksum && m.checksum == 0 then m.compute_checksum
              else some m.checksum) = some first := by
            rw [hchecksum]
            split <;> exact ⟨_, rfl⟩
          obtain ⟨first, hfirst⟩ := hfirst
          rw [hfirst]
          simp only [Option.map_some, Option.bind_some, if_true, encode_stream_body_apply hone]
          cases m.body_chunks info with
          | none => rfl
          | some body =>
              simp only [Option.map_some, Option.bind_some, encode_stream_checksum_apply]
              cases m.checksum_chunks info with
              | none => rfl
              | some checksum => simp [pure_apply, List.append_assoc]

-- The other encoder has the same two assertions in its branches.
theorem encode_body_cases (m : Message) (info : MessageTypeInfo) :
    (m.body_chunks info = none ∧ m.encode_body info = StateT.lift none) ∨
    (m.body_chunks info = some [] ∧ m.encode_body info = pure .SUCCESS) ∨
    ∃ bytes, m.body_chunks info = some [bytes] ∧ m.encode_body info = write bytes := by
  unfold body_chunks encode_body has_one_body content
  cases info.has_body <;> cases m.body <;> cases info.body <;> simp

theorem encode_checksum_cases (m : Message) (info : MessageTypeInfo) :
    (m.checksum_chunks info = none ∧ ∀ sink, m.encode_checksum info sink = none) ∨
    (m.checksum_chunks info = some [] ∧ m.encode_checksum info = pure .SUCCESS) ∨
    ∃ bytes, m.checksum_chunks info = some [bytes] ∧ m.encode_checksum info = write bytes := by
  unfold checksum_chunks encode_checksum
  cases info.has_checksum with
  | false => exact .inr (.inl ⟨rfl, rfl⟩)
  | true =>
      cases m.compute_checksum with
      | none => exact .inl ⟨rfl, fun _ => rfl⟩
      | some checksum => exact .inr (.inr ⟨_, rfl, rfl⟩)

theorem emits_unchecked (hinfo : get_type_info m.header.type = some info) {body checksum : List Bytes}
    (hbody : m.body_chunks info = some body) (hchecksum : m.checksum_chunks info = some checksum) :
    Emits m.encode (unchecked (m.header.bytes :: (body ++ checksum))) := by
  have hlast : Emits (do
      let _ ← m.encode_checksum info
      return .SUCCESS) (unchecked checksum) := by
    rcases encode_checksum_cases m info with ⟨hnone, -⟩ | ⟨hnil, hpure⟩ | ⟨bytes, hone, hwrite⟩
    · exact absurd (hnone.symm.trans hchecksum) (by simp)
    · obtain rfl := Option.some.inj (hnil.symm.trans hchecksum)
      rw [hpure]
      exact Encoder.Emits.pure
    · obtain rfl := Option.some.inj (hone.symm.trans hchecksum)
      rw [hwrite]
      exact Encoder.Emits.write_ignored _ Encoder.Emits.pure
  have hencode : m.encode = (do
      let _ ← write m.header.bytes
      let _ ← m.encode_body info
      let _ ← m.encode_checksum info
      return .SUCCESS) := by
    rw [encode, hinfo]
    rfl
  rw [hencode]
  refine Encoder.Emits.write_ignored _ ?_
  rcases encode_body_cases m info with ⟨hnone, -⟩ | ⟨hnil, hpure⟩ | ⟨bytes, hone, hwrite⟩
  · exact absurd (hnone.symm.trans hbody) (by simp)
  · obtain rfl := Option.some.inj (hnil.symm.trans hbody)
    rw [hpure]
    exact hlast
  · obtain rfl := Option.some.inj (hone.symm.trans hbody)
    rw [hwrite]
    exact Encoder.Emits.write_ignored _ hlast

theorem emitted_unchecked (chunks : List Bytes) (free : Nat) :
    (emitted (unchecked chunks) free).1 = true := by
  induction chunks generalizing free with
  | nil => rfl
  | cons chunk chunks ih =>
      simp only [unchecked, List.map_cons, emitted, Bool.false_eq_true, if_false]
      split
      · exact ih _
      · exact ih _

theorem encode_eq_none (h : m.chunks = none) (sink : MemoryEncodeBuffer) : m.encode sink = none := by
  cases hencode : m.encode sink with
  | none => rfl
  | some result =>
      obtain ⟨_, _, -, hencode⟩ := bind_eq_some_iff.mp hencode
      obtain ⟨info, _, hinfo, hencode⟩ := bind_eq_some_iff.mp hencode
      obtain ⟨_, _, hbody, hencode⟩ := bind_eq_some_iff.mp hencode
      obtain ⟨_, _, hchecksum, -⟩ := bind_eq_some_iff.mp hencode
      obtain ⟨hinfo, -⟩ := lift_eq_some_iff.mp hinfo
      simp only [chunks, hinfo, Option.bind_eq_bind, Option.bind_some] at h
      rcases encode_body_cases m info with ⟨-, hlift⟩ | ⟨hchunks, -⟩ | ⟨_, hchunks, -⟩
      · rw [hlift] at hbody
        exact absurd (lift_eq_some_iff.mp hbody).1 (by simp)
      all_goals
        rw [hchunks, Option.bind_some] at h
        rcases encode_checksum_cases m info with ⟨-, hnone⟩ | ⟨hchunks, -⟩ | ⟨_, hchunks, -⟩
        · exact absurd ((hnone _).symm.trans hchecksum) (by simp)
        · rw [hchunks] at h
          contradiction
        · rw [hchunks] at h
          contradiction

theorem ofType_of_header (hinfo : get_type_info type = some info) (htext : info.body = none) :
    ofType type = some { empty with header := ⟨0, type⟩ } := by
  have hsize : ({ empty with header := ⟨0, type⟩ } : Message).get_encoded_size = some HeaderSize :=
    get_encoded_size_of_header hinfo htext
  simp only [ofType, hsize, Option.bind_eq_bind, Option.bind_some]
  rfl

theorem query_of_no_body (hinfo : get_type_info type = some info) (hbody : info.has_body = false) :
    type = .CONFIGURATION_QUERY := by
  obtain ⟨entry, hget, hentry⟩ := Option.bind_eq_some_iff.mp hinfo
  split at hentry
  · rename_i htype
    obtain rfl := Option.some.inj hentry
    have hmem := List.mem_of_getElem? hget
    simp only [message_type_info, List.mem_cons, List.not_mem_nil, or_false] at hmem
    rcases hmem with rfl | rfl | rfl | rfl | rfl | rfl | rfl | rfl <;> simp at hbody
    exact htype.symm
  · exact absurd hentry (by simp)

-- The types that bring their body along, or have none, are the ones that both can write.
theorem encode_type_eq (type : MessageType) (sink : MemoryEncodeBuffer) :
    encode_type type sink = (ofType type).bind fun m => m.encode sink := by
  cases hinfo : get_type_info type with
  | none => simp [encode_type, bind_apply, lift_apply, ofType, get_encoded_size, hinfo]
  | some info =>
      cases htext : info.body with
      | some text =>
          obtain rfl := (sync_of_body hinfo htext).1
          rfl
      | none =>
          cases hbody : info.has_body with
          | false =>
              obtain rfl := query_of_no_body hinfo hbody
              rfl
          | true =>
              have hchunks : ({ empty with header := ⟨0, type⟩ } : Message).chunks = none := by
                simp [chunks, body_chunks, has_one_body, hinfo, hbody, htext, empty]
              rw [ofType_of_header hinfo htext, Option.bind_some, encode_eq_none hchunks]
              cases hchecksum : info.has_checksum <;>
                simp [encode_type, hinfo, hbody, htext, hchecksum, bind_apply, lift_apply]

theorem encode_stream_agrees (m : Message) :
    (∃ chunks : List Bytes,
      (∀ sink : MemoryEncodeBuffer, m.encode sink =
        some (.SUCCESS, sink.append (emitted (unchecked chunks) sink.free).2)) ∧
      ∀ stream, m.encode_stream stream = some (.SUCCESS, stream ++ chunks.flatten)) ∨
    ((∀ sink, m.encode sink = none) ∧ ∀ stream, m.encode_stream stream = none) := by
  cases hchunks : m.chunks with
  | none =>
      refine .inr ⟨encode_eq_none hchunks, fun stream => ?_⟩
      rw [encode_stream_eq, hchunks]
      rfl
  | some chunks =>
      obtain ⟨info, hinfo, hrest⟩ := Option.bind_eq_some_iff.mp hchunks
      obtain ⟨body, hbody, hrest⟩ := Option.bind_eq_some_iff.mp hrest
      obtain ⟨checksum, hchecksum, hrest⟩ := Option.bind_eq_some_iff.mp hrest
      obtain rfl : m.header.bytes :: (body ++ checksum) = chunks := Option.some.inj hrest
      refine .inl ⟨m.header.bytes :: (body ++ checksum), fun sink => ?_, fun stream => ?_⟩
      · rw [emits_unchecked hinfo hbody hchecksum sink, emitted_unchecked, if_pos rfl]
      · rw [encode_stream_eq, hchunks]
        rfl

-- A stream gets all that a memory block gets when it has the room, and what is left out of a block
-- without it are whole writes. An assertion that ends one encoder ends the other. A message that is
-- written by its type alone is the one that is constructed from its type.
theorem encoders_agree :
    (∀ m : Message,
      (∃ chunks : List Bytes,
        (∀ sink : MemoryEncodeBuffer, m.encode sink =
          some (.SUCCESS, sink.append (emitted (unchecked chunks) sink.free).2)) ∧
        ∀ stream, m.encode_stream stream = some (.SUCCESS, stream ++ chunks.flatten)) ∨
      ((∀ sink, m.encode sink = none) ∧ ∀ stream, m.encode_stream stream = none)) ∧
    ∀ (type : MessageType) (sink : MemoryEncodeBuffer),
      encode_type type sink = (ofType type).bind fun m => m.encode sink :=
  ⟨encode_stream_agrees, encode_type_eq⟩

end Message

end RoboCrisp.Comms
