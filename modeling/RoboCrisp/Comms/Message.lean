import RoboCrisp.Comms.Configuration
import RoboCrisp.Comms.Handshake
import RoboCrisp.Comms.ModuleControl
import RoboCrisp.Util.Checksum

namespace RoboCrisp.Comms

open RoboCrisp.Stream RoboCrisp.Util

-- One byte of which the first values have a name. A peer may send any other.
structure MessageType where
  code : UInt8
deriving DecidableEq

namespace MessageType

def HANDSHAKE : MessageType := ⟨0⟩
def HANDSHAKE_RESPONSE : MessageType := ⟨1⟩
def SYNC : MessageType := ⟨2⟩
def ERROR : MessageType := ⟨3⟩
def CONFIGURATION_QUERY : MessageType := ⟨4⟩
def CONFIGURATION_RESPONSE : MessageType := ⟨5⟩
def SENSOR_DATA : MessageType := ⟨6⟩
def MODULE_CONTROL : MessageType := ⟨7⟩

end MessageType

def MESSAGE_CHECKSUM_SIZE : Nat := 4

structure MessageTypeInfo where
  type : MessageType
  has_body : Bool
  has_checksum : Bool
  body : Option CString

theorem sync_no_nul : (0 : UInt8) ∉ [0x53, 0x59, 0x4E, 0x43] := by decide

def message_type_info : List MessageTypeInfo :=
  [ ⟨.HANDSHAKE, true, false, none⟩,
    ⟨.HANDSHAKE_RESPONSE, true, false, none⟩,
    ⟨.SYNC, true, false, some ⟨[0x53, 0x59, 0x4E, 0x43], sync_no_nul⟩⟩,
    ⟨.ERROR, true, true, none⟩,
    ⟨.CONFIGURATION_QUERY, false, false, none⟩,
    ⟨.CONFIGURATION_RESPONSE, true, true, none⟩,
    ⟨.SENSOR_DATA, true, true, none⟩,
    ⟨.MODULE_CONTROL, true, true, none⟩ ]

-- The entry of a type, with the two assertions.
def get_type_info (type : MessageType) : Option MessageTypeInfo := do
  let info ← message_type_info[type.code.toNat]?
  if info.type = type then return info else none

-- info.has_checksum ? MESSAGE_CHECKSUM_SIZE : 0
def MessageTypeInfo.checksum_size (info : MessageTypeInfo) : Nat :=
  if info.has_checksum then MESSAGE_CHECKSUM_SIZE else 0

structure Header where
  length : UInt16
  type : MessageType
deriving DecidableEq

-- The memory of the packed header.
def Header.bytes (header : Header) : Bytes := littleEndian 2 header.length.toNat ++ [header.type.code]

def Header.ofBytes (bytes : Bytes) : Header :=
  ⟨UInt16.ofNat (ofLittleEndian (bytes.take 2)), ⟨bytes.getD 2 0⟩⟩

structure Message where
  header : Header
  body : Option Bytes
  checksum : UInt32
deriving DecidableEq

-- What the constructor from a body is used with.
inductive Body
  | handshake (hs : Handshake)
  | handshake_response (hs : HandshakeResponse)
  | configuration (c : Configuration)
  | module_control (mc : ModuleControl)

namespace Body

def type : Body → MessageType
  | .handshake _ => .HANDSHAKE
  | .handshake_response _ => .HANDSHAKE_RESPONSE
  | .configuration _ => .CONFIGURATION_RESPONSE
  | .module_control _ => .MODULE_CONTROL

def get_encoded_size : Body → Option Nat
  | .handshake hs => some hs.get_encoded_size
  | .handshake_response hs => some hs.get_encoded_size
  | .configuration c => c.get_encoded_size
  | .module_control mc => mc.get_encoded_size

def encode : Body → Encode
  | .handshake hs => hs.encode
  | .handshake_response hs => hs.encode
  | .configuration c => c.encode
  | .module_control mc => mc.encode

end Body

-- MemoryEncodeBuffer(size_t size)
def MemoryEncodeBuffer.alloc (size : Nat) : MemoryEncodeBuffer := Sink.ofList (List.replicate size 0)

namespace Message

-- sizeof(Header)
def HeaderSize : Nat := 3

-- The default constructor.
def empty : Message := ⟨⟨0, .HANDSHAKE⟩, none, 0⟩

-- body ? body->data : info.body
def content (m : Message) (info : MessageTypeInfo) : Option Bytes :=
  match m.body with
  | some body => some body
  | none => info.body.map CString.chars

def get_encoded_size (m : Message) : Option Nat := do
  let info ← get_type_info m.header.type
  if info.has_checksum = true ∧ info.has_body = false then none
  else match m.content info with
    | none => return HeaderSize + m.header.length.toNat
    | some body =>
        return HeaderSize + (if info.has_body then body.length else 0) + info.checksum_size

-- A type with a checksum has no body of its own, so that a message of such a type without
-- a body would take the length of a null string.
def compute_checksum (m : Message) : Option UInt32 := do
  let info ← get_type_info m.header.type
  if info.has_checksum then do
    let body ← m.body
    return crc32 (m.header.bytes ++ body)
  else return 0

def checksum_ok (m : Message) : Option Bool := do
  let info ← get_type_info m.header.type
  if info.has_checksum then do
    let checksum ← m.compute_checksum
    return m.checksum == checksum
  else return true

-- Message(MessageType _type)
def ofType (_type : MessageType) : Option Message := do
  let m := { empty with header := ⟨0, _type⟩ }
  let size ← m.get_encoded_size
  return { m with header.length := UInt16.ofNat (size - HeaderSize) }

-- Message(_T&& _body). The result of the encode is dropped.
def ofBody (_body : Body) : Option Message := do
  let info ← get_type_info _body.type
  let size ← _body.get_encoded_size
  let (_, eb) ← _body.encode (MemoryEncodeBuffer.alloc size)
  let body ← load eb.data size
  let m := { empty with
    header := ⟨UInt16.ofNat (size + info.checksum_size), _body.type⟩
    body := some body }
  let checksum ← m.compute_checksum
  return { m with checksum }

-- An assertion wants either a body or one that comes with the type.
def encode_body (m : Message) (info : MessageTypeInfo) : Encode :=
  if info.has_body then
    match m.body, info.body with
    | some body, none => write body
    | none, some text => write text.chars
    | _, _ => StateT.lift none
  else pure .SUCCESS

def encode_checksum (m : Message) (info : MessageTypeInfo) : Encode :=
  if info.has_checksum then do
    let checksum ← StateT.lift m.compute_checksum
    write (littleEndian MESSAGE_CHECKSUM_SIZE checksum.toNat)
  else pure .SUCCESS

def encode (m : Message) : Encode := do
  let _ ← write m.header.bytes
  let info ← StateT.lift (get_type_info m.header.type)
  let _ ← m.encode_body info
  let _ ← m.encode_checksum info
  return .SUCCESS

-- The size is unsigned: a length that does not cover the checksum asks for a block that
-- malloc cannot give.
def decode_body (length : UInt16) (info : MessageTypeInfo) : Decode (Option Bytes) :=
  if info.has_body then
    if length.toNat < info.checksum_size then StateT.lift none
    else do
      let body_size := length.toNat - info.checksum_size
      match ← read body_size with
      | some body => return some body
      | none => return some (List.replicate body_size 0)
  else return none

def decode_checksum (info : MessageTypeInfo) : Decode UInt32 :=
  if info.has_checksum then do
    match ← read MESSAGE_CHECKSUM_SIZE with
    | some bytes => return UInt32.ofNat (ofLittleEndian bytes)
    | none => return empty.checksum
  else return empty.checksum

def decode : Decode Message := do
  let header := match ← read HeaderSize with
    | some bytes => Header.ofBytes bytes
    | none => empty.header
  let info ← StateT.lift (get_type_info header.type)
  let body ← decode_body header.length info
  let checksum ← decode_checksum info
  return { header, body, checksum }

-- as<_T>(), which throws when there is no body
def as {α : Type} (m : Message) (decode_copy : Decode α) : Option α := do
  let body ← m.body
  let (out, _) ← decode_copy (Cursor.ofList body)
  return out

-- operator ==
def eq (m o : Message) : Option Bool :=
  if m.header = o.header && m.body = o.body then do
    let first ← m.compute_checksum
    let second ← o.compute_checksum
    return first = second
  else some false

end Message

end RoboCrisp.Comms
