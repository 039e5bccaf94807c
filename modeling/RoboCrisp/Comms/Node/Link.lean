import RoboCrisp.Comms.Node.Order
import RoboCrisp.Comms.Node.Tracking
import RoboCrisp.Comms.BasicNode.Framing

namespace RoboCrisp.Comms

open RoboCrisp.Stream RoboCrisp.Util RoboCrisp.Transition

namespace BasicNode

variable {s : LoopState}

section Run

variable [Heap]

end Run

end BasicNode

-- Its copies leave the length of a message that has them its 16 bits.
def Configuration.Fits (c : Configuration) : Prop :=
  ∀ copy, c.copy = some copy → ∀ info size, get_type_info (Body.configuration copy).type = some info →
    (Body.configuration copy).get_encoded_size = some size → size + info.checksum_size ≤ 65535

namespace Node

variable {n n' : Node}

theorem checksum_size_le (info : MessageTypeInfo) : info.checksum_size ≤ 4 := by
  rw [MessageTypeInfo.checksum_size]
  split
  · exact Nat.le_refl _
  · exact Nat.zero_le _

theorem Replies.built {job : Job} {m : Message} (hfits : n.configuration.Fits) (h : n.Replies job m) :
    m.Built := by
  rcases h with hsync | ⟨hs, -, hbody⟩ | ⟨c, -, hcopy, hbody⟩
  · exact .sync hsync
  · refine .body _ hbody fun info size _ hsize => ?_
    obtain rfl := Option.some.inj hsize
    have hle := checksum_size_le info
    change 2 + info.checksum_size ≤ 65535
    omega
  · exact .body _ hbody (hfits c hcopy)

end Node

end RoboCrisp.Comms
