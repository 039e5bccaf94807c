import RoboCrisp.Comms.BasicNode.Lemmas

namespace RoboCrisp.Comms

open RoboCrisp.Stream RoboCrisp.Util

-- A message from one of the public constructors. A body leaves the length its 16 bits.
inductive Message.Built (m : Message) : Prop
  | sync : Message.ofType .SYNC = some m → Message.Built m
  | configuration_query : Message.ofType .CONFIGURATION_QUERY = some m → Message.Built m
  | body (body : Body) : Message.ofBody body = some m →
      (∀ info size, get_type_info body.type = some info → body.get_encoded_size = some size →
        size + info.checksum_size ≤ 65535) → Message.Built m

def Message.bodyBytes (m : Message) : Bytes :=
  ((get_type_info m.header.type).bind m.content).getD []

-- What comes out at the other end is the message that went in.
structure Message.Arrives (sent received : Message) : Prop where
  type_eq : received.header.type = sent.header.type
  length_eq : received.header.length = sent.header.length
  bodyBytes_eq : received.bodyBytes = sent.bodyBytes

-- A frame that the receiver hands on.
structure Frame.Deliverable (f : Frame) : Prop where
  intact : f.Intact
  fixed : f.Fixed
  handled : MessageDispatcher.throws f.type = false

namespace Message

theorem exists_represents_sync {m : Message} (h : ofType .SYNC = some m) :
    ∃ f : Frame, m.Represents f ∧ f.type = .SYNC := by
  obtain rfl := Option.some.inj h
  refine ⟨⟨.SYNC, ⟨.SYNC, true, false, some ⟨[0x53, 0x59, 0x4E, 0x43], sync_no_nul⟩⟩, rfl,
    [0x53, 0x59, 0x4E, 0x43], 0, fun _ => by contradiction, fun _ => rfl, by decide⟩,
    ⟨rfl, rfl, fun h => by contradiction, ?_⟩, rfl⟩
  rintro text htext
  rw [← Option.some.inj htext]

theorem exists_represents_configuration_query {m : Message}
    (h : ofType .CONFIGURATION_QUERY = some m) :
    ∃ f : Frame, m.Represents f ∧ f.type = .CONFIGURATION_QUERY := by
  obtain rfl := Option.some.inj h
  exact ⟨⟨.CONFIGURATION_QUERY, ⟨.CONFIGURATION_QUERY, false, false, none⟩, rfl, [], 0, fun _ => rfl,
    fun _ => rfl, by decide⟩, ⟨rfl, rfl, fun h => by contradiction, fun _ h => by contradiction⟩, rfl⟩

theorem get_type_info_body (body : Body) : ∃ info, get_type_info body.type = some info ∧
    info.has_body = true ∧ info.body = none := by
  cases body <;> exact ⟨_, rfl, rfl, rfl⟩

theorem exists_represents_body {m : Message} {body : Body} (h : ofBody body = some m)
    (hsize : ∀ info size, get_type_info body.type = some info →
      body.get_encoded_size = some size → size + info.checksum_size ≤ 65535) :
    ∃ f : Frame, m.Represents f ∧ f.type = body.type := by
  obtain ⟨info, hknown, hhas, hnone⟩ := get_type_info_body body
  rw [ofBody, hknown, Option.bind_eq_bind, Option.bind_some] at h
  obtain ⟨size, hsize', h⟩ := Option.bind_eq_some_iff.mp h
  obtain ⟨⟨r, eb⟩, -, h⟩ := Option.bind_eq_some_iff.mp h
  obtain ⟨bytes, hload, h⟩ := Option.bind_eq_some_iff.mp h
  obtain ⟨checksum, hchecksum, h⟩ := Option.bind_eq_some_iff.mp h
  obtain rfl := Option.some.inj h
  obtain rfl : bytes.length = size := by
    rw [load] at hload
    split at hload
    · rw [← Option.some.inj hload, List.length_take_of_le (by assumption)]
    · exact absurd hload (by simp)
  have hroom := hsize info bytes.length hknown hsize'
  have hcomputed : checksum = if info.has_checksum then
      crc32 (Header.bytes ⟨UInt16.ofNat (bytes.length + info.checksum_size), body.type⟩ ++ bytes)
    else 0 := by
    simp only [compute_checksum, hknown, Option.bind_eq_bind, Option.bind_some] at hchecksum
    split at hchecksum
    · rename_i hcheck
      rw [if_pos hcheck]
      exact (Option.some.inj hchecksum).symm
    · rename_i hcheck
      rw [if_neg hcheck]
      exact (Option.some.inj hchecksum).symm
  refine ⟨⟨body.type, info, hknown, bytes, checksum, ?_, ?_, ?_⟩, ⟨?_, ?_, ?_, ?_⟩, rfl⟩
  · intro hno
    rw [hhas] at hno
    exact absurd hno (by decide)
  · intro hcheck
    rw [if_neg (by rw [hcheck]; decide)] at hcomputed
    exact hcomputed
  · omega
  · rfl
  · rw [if_pos ⟨hhas, hnone⟩]
  · intro hcheck
    rw [if_pos hcheck] at hcomputed
    exact hcomputed
  · intro text htext
    rw [hnone] at htext
    exact absurd htext (by simp)

-- Every message that can be built stands for a frame that is handed on.
theorem Built.exists_frame {m : Message} (h : m.Built) :
    ∃ f : Frame, m.Represents f ∧ f.Deliverable := by
  have hframe : ∃ f : Frame, m.Represents f ∧ MessageDispatcher.throws f.type = false := by
    cases h with
    | sync h =>
        obtain ⟨f, hrep, htype⟩ := exists_represents_sync h
        exact ⟨f, hrep, by rw [htype]; rfl⟩
    | configuration_query h =>
        obtain ⟨f, hrep, htype⟩ := exists_represents_configuration_query h
        exact ⟨f, hrep, by rw [htype]; rfl⟩
    | body body h hsize =>
        obtain ⟨f, hrep, htype⟩ := exists_represents_body h hsize
        exact ⟨f, hrep, by rw [htype]; cases body <;> rfl⟩
  obtain ⟨f, hrep, hhandled⟩ := hframe
  exact ⟨f, hrep, hrep.intact, hrep.fixed, hhandled⟩

end Message

namespace BasicNode

theorem send_bytes_eq {m : Message} {f : Frame} (h : m.Represents f) :
    send_bytes m = some f.wire := by
  have hfree : (MemoryEncodeBuffer.alloc f.wire.length).free = f.wire.length := by
    rw [Sink.free_eq, MemoryEncodeBuffer.alloc, Sink.ofList, List.length_replicate]
  have hencode := h.emits.stores (MemoryEncodeBuffer.alloc f.wire.length)
    (by rw [f.wire_pieces, hfree])
  rw [f.wire_pieces] at hencode
  rw [send_bytes, h.get_encoded_size_eq, Option.bind_eq_bind, Option.bind_some, hencode]
  have hdata : ((MemoryEncodeBuffer.alloc f.wire.length).append f.wire).data = f.wire := by
    simp [MemoryEncodeBuffer.alloc, Sink.ofList, Sink.append, Sink.data]
  have hoffset : ((MemoryEncodeBuffer.alloc f.wire.length).append f.wire).offset = f.wire.length := by
    simp [MemoryEncodeBuffer.alloc, Sink.ofList, Sink.append, Sink.offset]
  simp only [Option.bind_eq_bind, Option.bind_some, ne_eq, not_true_eq_false, ite_false, hdata,
    hoffset, List.take_length]
  rfl

-- m_stopped when nobody halts the node.
def running : Nat → Bool := fun _ => false

section Run

variable [Heap] {s : LoopState}

end Run

end BasicNode

end RoboCrisp.Comms
