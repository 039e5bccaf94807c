import RoboCrisp.Comms.Message
import RoboCrisp.Stream.Chunks

namespace RoboCrisp.Comms

open RoboCrisp.Stream RoboCrisp.Util

-- MessageDispatcher::dispatch throws on the types that it has no handlers for.
def MessageDispatcher.throws (type : MessageType) : Bool := type = .ERROR ∨ type = .SENSOR_DATA

namespace BasicNode

def BUFSIZ : Nat := 8192

-- "\x04\x00\x02\x53\x59\x4E\x43" with its terminator
def sync_string : Bytes := [0x04, 0x00, 0x02, 0x53, 0x59, 0x4E, 0x43, 0x00]

-- The delimiter is a std::string made from a pointer to the characters.
def delimiter : Bytes := sync_string.takeWhile (· ≠ 0)

-- `polls` counts how often the loop has looked at m_stopped. `dispatched` are the messages
-- that were handed to the dispatcher, `resyncs` the calls of resync.
structure LoopState where
  socket : Chunks UInt8
  rdbuf : Bytes
  polls : Nat
  dispatched : List Message
  resyncs : Nat

def LoopState.start (socket : Chunks UInt8) : LoopState where
  socket
  rdbuf := List.replicate BUFSIZ 0
  polls := 0
  dispatched := []
  resyncs := 0

abbrev Loop := StateT LoopState Option

-- A read that the end of the stream cuts short fails, and what there was is not delivered.
def async_read (size : Nat) : Loop (Option Bytes) := fun s =>
  match s.socket.readExactly size with
  | some (bytes, socket) => some (some bytes, { s with socket })
  | none => some (none, s)

def async_read_until (delimiter : Bytes) : Loop (Option Bytes) := fun s =>
  match s.socket.readUntil delimiter [] with
  | some (bytes, socket) => some (some bytes, { s with socket })
  | none => some (none, s)

-- The stream buffer goes out of scope with what was read.
def resync : Loop Bool := do
  let read_buf ← async_read_until delimiter
  modify fun s => { s with resyncs := s.resyncs + 1 }
  return read_buf.isSome

-- An exception from the dispatcher leaves the loop.
def dispatch (m : Message) : Loop Bool := do
  modify fun s => { s with dispatched := s.dispatched ++ [m] }
  return !MessageDispatcher.throws m.header.type

def read_header : Loop (Option Header) := do
  let bytes ← async_read Message.HeaderSize
  return bytes.map Header.ofBytes

-- Make sure the buffer is big enough, and put the header in front.
def make_room [Heap] (header : Header) : Loop Unit := fun s => do
  let encoded_size ← ({ Message.empty with header } : Message).get_encoded_size
  let rdbuf := if s.rdbuf.length < encoded_size then Buffer.resize s.rdbuf encoded_size else s.rdbuf
  let rdbuf ← store rdbuf 0 header.bytes
  return ((), { s with rdbuf })

-- The region behind the header goes to the read as it is. Where it ends outside of the buffer
-- there is no result.
def read_body (header : Header) (mti : MessageTypeInfo) : Loop Bool :=
  if mti.has_body then do
    let s ← get
    if s.rdbuf.length < Message.HeaderSize + header.length.toNat then StateT.lift none
    else match ← async_read header.length.toNat with
      | none => return false
      | some bytes => do
          let rdbuf ← StateT.lift (store s.rdbuf Message.HeaderSize bytes)
          modify fun s => { s with rdbuf }
          return true
  else return true

def handle (mti : MessageTypeInfo) : Loop Bool := do
  let s ← get
  let (m, _) ← StateT.lift (Message.decode (Cursor.ofList s.rdbuf))
  let ok ← if mti.has_checksum then StateT.lift m.checksum_ok else pure true
  if ok then dispatch m else resync

section Run

-- The values of m_stopped, one for each look at it.
variable (m_stopped : Nat → Bool)

def poll : Loop Bool := fun s => some (m_stopped s.polls, { s with polls := s.polls + 1 })

variable [Heap]

-- One turn of the loop, and whether another one follows.
def iteration : Loop Bool := do
  match ← read_header with
  | none => return false
  | some header => do
      if ← poll m_stopped then return false
      else do
        make_room header
        let mti ← StateT.lift (get_type_info header.type)
        if ← read_body header mti then
          if ← poll m_stopped then return false
          else handle mti
        else return false

-- There is no result when `fuel` turns are not enough.
def receive_loop : Nat → Loop Unit
  | 0 => StateT.lift none
  | fuel + 1 => do
      if ← poll m_stopped then return ()
      else do
        if ← iteration m_stopped then receive_loop fuel
        else return ()

end Run

-- What send_loop writes to the socket for one message.
def send_bytes (message : Message) : Option Bytes := do
  let size ← message.get_encoded_size
  let (er, meb) ← message.encode (MemoryEncodeBuffer.alloc size)
  if er ≠ .SUCCESS then return [] else return meb.data.take meb.offset

end BasicNode

end RoboCrisp.Comms
