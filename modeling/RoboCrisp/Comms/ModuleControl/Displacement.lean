import RoboCrisp.Comms.ModuleControl.Assignment

namespace RoboCrisp.Comms.ModuleControl

open RoboCrisp.Stream RoboCrisp.Util RoboCrisp.Comms.DataValue

-- Where decode finds the values in the bytes of a message. An array is sent without a count and
-- read with one, so that what comes behind it is not always read where it was written.

def types (pairs : List ValuePair) : List DataDeclaration := pairs.map fun pair => pair.value.data_type

variable {m : Module} {inputs named : List ModuleInput} {mc out : ModuleControl} {ids : List Nat}
  {pairs front back : List ValuePair} {new : ValuePair} {config : Configuration} {input : ModuleInput}
  {key : InputKey}

section Copies

variable (hm : m.Indexed inputs) (hget : config.modules.get m.id.toNat = some m)
  (hclear : mc.is_clear = false)

include hm hget hclear

end Copies

end RoboCrisp.Comms.ModuleControl
