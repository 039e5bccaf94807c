import RoboCrisp.Comms.Truncation

namespace RoboCrisp.Comms

open RoboCrisp.Stream RoboCrisp.Util

-- What the counts and lengths in the data ask for, from front to back: the declarations whose
-- headers are met, whether every byte asked for is there, and the bytes left over.
structure Layout where
  declarations : List DataDeclaration
  complete : Bool
  rest : Bytes

namespace Layout

@[simp] def done (data : Bytes) : Layout := ⟨[], true, data⟩

-- Bytes that are missing are not waited for: what comes next is looked for at the same place.
def skip (size : Nat) (data : Bytes) : Layout :=
  if size ≤ data.length then ⟨[], true, data.drop size⟩ else ⟨[], false, data⟩

def andThen (first : Layout) (next : Bytes → Layout) : Layout :=
  let last := next first.rest
  ⟨first.declarations ++ last.declarations, first.complete && last.complete, last.rest⟩

def times (layout : Bytes → Layout) : Nat → Bytes → Layout
  | 0, data => done data
  | count + 1, data => (layout data).andThen (times layout count)

theorem andThen_done (layout : Layout) : layout.andThen done = layout := by
  simp [andThen]

-- A header, and what it announces. Without it there is nothing to go by.
def behind (size : Nat) (next : Bytes → Bytes → Layout) (data : Bytes) : Layout :=
  if size ≤ data.length then next (data.take size) (data.drop size) else ⟨[], false, data⟩

end Layout

def DataDeclaration.layout_tail (obj : DataDeclaration) (data : Bytes) : Layout :=
  { Layout.skip obj.get_tail_size data with declarations := [obj] }

def DataDeclaration.layout : Bytes → Layout :=
  Layout.behind HeaderSize fun header => (empty.withHeader header).layout_tail

def NamedTyped.layout_rest (out : NamedTyped) (data : Bytes) : Layout :=
  (out.data_type.layout_tail data).andThen (Layout.skip out.name_length.toNat)

def ModuleInput.layout : Bytes → Layout :=
  Layout.behind HeaderSize fun header => (empty.withHeader header).toNamedTyped.layout_rest

def Sensor.layout : Bytes → Layout :=
  Layout.behind HeaderSize fun header => (empty.withHeader header).toNamedTyped.layout_rest

def Module.layout_rest (m : Module) (data : Bytes) : Layout :=
  (Layout.skip m.name_length.toNat data).andThen fun data =>
    (Layout.times ModuleInput.layout m.num_inputs.toNat data).andThen
      (Layout.times Sensor.layout m.num_sensors.toNat)

-- The target only matters when the header is missing.
def Module.layout (m : Module) (data : Bytes) : Layout :=
  if HeaderSize ≤ data.length then
    (m.reset.withHeader (data.take HeaderSize)).layout_rest (data.drop HeaderSize)
  else { m.reset.layout_rest data with complete := false }

def Configuration.layout : Bytes → Layout
  | [] => ⟨[], false, []⟩
  | num_modules :: data => Layout.times Module.empty.layout num_modules.toNat data

namespace Value

-- The types of the values in a control message come from the configuration.
def layout : Value → Bytes → Layout
  | .declaration _ => DataDeclaration.layout
  | .input _ => ModuleInput.layout
  | .sensor _ => Sensor.layout
  | .module obj => obj.layout
  | .configuration _ => Configuration.layout
  | .control _ _ => Layout.done

-- The objects that hold declarations, with arrays that have not been moved away.
def Declares : Value → Prop
  | .declaration _ => True
  | .input _ => True
  | .sensor _ => True
  | .module obj => (∃ inputs, obj.inputs.Holds inputs) ∧ ∃ sensors, obj.sensors.Holds sensors
  | .configuration obj => ∃ modules, obj.modules.Holds modules
  | .control _ _ => False

end Value

end RoboCrisp.Comms
