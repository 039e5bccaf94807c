import RoboCrisp.Comms.BasicNode
import RoboCrisp.Comms.Message.Frame

namespace RoboCrisp.Comms.BasicNode

open RoboCrisp.Stream RoboCrisp.Util

variable {s : LoopState}

section Steps

-- The buffer grows to what the message object asks for, and never shrinks.
theorem make_room_eq [Heap] {header : Header} {size : Nat}
    (hsize : ({ Message.empty with header } : Message).get_encoded_size = some size)
    (hlength : Message.HeaderSize ≤ s.rdbuf.length) :
    ∃ rest, make_room header s = some ((), { s with rdbuf := header.bytes ++ rest }) ∧
      (header.bytes ++ rest).length = max s.rdbuf.length size := by
  have hstore : ∀ block : Bytes, Message.HeaderSize ≤ block.length →
      store block 0 header.bytes = some (header.bytes ++ block.drop Message.HeaderSize) := by
    intro block hblock
    rw [store, Nat.zero_add, Header.length_bytes, if_pos hblock, List.take_zero, List.nil_append]
  have hcopied : ∀ block : Bytes, Message.HeaderSize ≤ block.length →
      (header.bytes ++ block.drop Message.HeaderSize).length = block.length := by
    intro block hblock
    rw [List.length_append, Header.length_bytes, List.length_drop]
    omega
  by_cases hgrow : s.rdbuf.length < size
  · have hresized : (Buffer.resize s.rdbuf size).length = size := by
      rw [Buffer.resize, List.length_append, List.length_take, Heap.length_alloc]
      omega
    have henough : Message.HeaderSize ≤ (Buffer.resize s.rdbuf size).length := by omega
    refine ⟨_, ?_, (hcopied _ henough).trans (by omega)⟩
    simp only [make_room, hsize, Option.bind_eq_bind, Option.bind_some, if_pos hgrow,
      hstore _ henough]
    rfl
  · refine ⟨_, ?_, (hcopied s.rdbuf hlength).trans (by omega)⟩
    simp only [make_room, hsize, Option.bind_eq_bind, Option.bind_some, if_neg hgrow,
      hstore _ hlength]
    rfl

-- What follows decode in a turn.
theorem checked_eq {mti : MessageTypeInfo} {m : Message} {ok : Bool}
    (hok : (if mti.has_checksum then m.checksum_ok else some true) = some ok) :
    (do
      let ok ← if mti.has_checksum then StateT.lift m.checksum_ok else pure true
      if ok then dispatch m else resync : Loop Bool) s = if ok then dispatch m s else resync s := by
  by_cases hchecksum : mti.has_checksum = true
  · rw [if_pos hchecksum] at hok
    simp only [if_pos hchecksum, hok]
    cases ok <;> rfl
  · rw [if_neg hchecksum] at hok
    obtain rfl := Option.some.inj hok
    simp only [if_neg hchecksum]
    rfl

theorem dispatch_eq (m : Message) : dispatch m s =
    some (!MessageDispatcher.throws m.header.type,
      { s with dispatched := s.dispatched ++ [m] }) := rfl

end Steps

section Frames

variable {f : Frame} {socket : Chunks UInt8}

end Frames

end RoboCrisp.Comms.BasicNode
