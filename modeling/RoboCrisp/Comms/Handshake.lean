import RoboCrisp.Comms.Buffer
import RoboCrisp.Stream.LittleEndian

namespace RoboCrisp.Comms

open RoboCrisp.Stream RoboCrisp.Util

-- One byte of which two values have a name. A peer may send any other.
structure NodeRole where
  code : UInt8
deriving DecidableEq

def NodeRole.MASTER : NodeRole := ⟨0⟩
def NodeRole.SLAVE : NodeRole := ⟨1⟩

structure HandshakeAcknowledge where
  code : UInt8
deriving DecidableEq

namespace HandshakeAcknowledge

def ACK : HandshakeAcknowledge := ⟨0⟩
def NACK_UNKNOWN_PROTOCOL : HandshakeAcknowledge := ⟨1⟩
def NACK_ROLE_CONFLICT : HandshakeAcknowledge := ⟨2⟩
def NACK_VERSION_CONFLICT : HandshakeAcknowledge := ⟨3⟩

end HandshakeAcknowledge

-- ('U' << 24) | ('W' << 16) | ('R' << 8) | 'T'
def PROTOCOL_NAME : UInt32 := 0x55575254

structure Handshake where
  protocol : UInt32
  version : UInt32
  role : NodeRole
deriving DecidableEq

namespace Handshake

-- Handshake(uint32_t _version, Role _role)
def make (_version : UInt32) (_role : NodeRole) : Handshake where
  protocol := PROTOCOL_NAME
  version := _version
  role := _role

-- The memory of the packed object.
def bytes (hs : Handshake) : Bytes :=
  littleEndian 4 hs.protocol.toNat ++ (littleEndian 4 hs.version.toNat ++ [hs.role.code])

def ofBytes (bytes : Bytes) : Handshake where
  protocol := UInt32.ofNat (ofLittleEndian (bytes.take 4))
  version := UInt32.ofNat (ofLittleEndian ((bytes.drop 4).take 4))
  role := ⟨bytes.getD 8 0⟩

-- The default constructor clears the whole object in the end.
def zero : Handshake := ⟨0, 0, ⟨0⟩⟩

def get_encoded_size (_ : Handshake) : Nat := 9

def encode (hs : Handshake) : Encode := write hs.bytes

def decode_copy : Decode Handshake := do
  match ← read 9 with
  | none => return zero
  | some bytes => return ofBytes bytes

-- operator ==
def eq (hs o : Handshake) : Bool :=
  hs.protocol = o.protocol && hs.version = o.version && hs.role = o.role

end Handshake

structure HandshakeResponse where
  acknowledge : HandshakeAcknowledge
  role : NodeRole
deriving DecidableEq

namespace HandshakeResponse

def bytes (hs : HandshakeResponse) : Bytes := [hs.acknowledge.code, hs.role.code]

def ofBytes (bytes : Bytes) : HandshakeResponse := ⟨⟨bytes.getD 0 0⟩, ⟨bytes.getD 1 0⟩⟩

def get_encoded_size (_ : HandshakeResponse) : Nat := 2

def encode (hs : HandshakeResponse) : Encode := write hs.bytes

-- There is no constructor that sets the fields.
def decode_copy [Heap] : Decode HandshakeResponse := do
  match ← read 2 with
  | none => return ofBytes (Heap.alloc 2)
  | some bytes => return ofBytes bytes

-- operator ==
def eq (hs o : HandshakeResponse) : Bool := hs.acknowledge = o.acknowledge && hs.role = o.role

end HandshakeResponse

end RoboCrisp.Comms
