import RoboCrisp.Comms.BasicNode.Framing

namespace RoboCrisp.Comms.BasicNode

open RoboCrisp.Stream RoboCrisp.Util

def sync_frame : Bytes := [0x04, 0x00, 0x02, 0x53, 0x59, 0x4E, 0x43]

-- A frame whose checksum is wrong, any bytes up to the next SYNC frame, and good frames.
structure Corrupted where
  bad : Frame
  checked : bad.info.has_checksum = true
  corrupt : ¬bad.Intact
  garbage : Bytes
  only_at_end : ∀ front back, garbage ++ sync_frame = front ++ sync_frame ++ back → back = []
  frames : List Frame
  deliverable : ∀ f ∈ frames, f.Deliverable

namespace Corrupted

def following (stream : Corrupted) : Bytes := stream.frames.flatMap Frame.wire

def wire (stream : Corrupted) : Bytes :=
  stream.bad.wire ++ (stream.garbage ++ sync_frame ++ stream.following)

end Corrupted

theorem delimiter_eq : delimiter = [0x04] := by decide

theorem resync_eq {s : LoopState} : resync s =
    match s.socket.readUntil [0x04] [] with
    | some (_, socket) => some (true, { s with socket, resyncs := s.resyncs + 1 })
    | none => some (false, { s with resyncs := s.resyncs + 1 }) := by
  rw [resync, delimiter_eq, bind_apply, async_read_until]
  cases s.socket.readUntil [0x04] [] with
  | none => rfl
  | some p => rfl

namespace Corrupted

variable {socket rest : Chunks UInt8}

theorem fixed (stream : Corrupted) : stream.bad.Fixed := by
  intro text htext
  rw [(has_body_of_has_checksum stream.bad.known stream.checked).2] at htext
  exact absurd htext (by simp)

variable [Heap] {stream : Corrupted}

end Corrupted

end RoboCrisp.Comms.BasicNode
