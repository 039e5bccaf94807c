import RoboCrisp.Input.Axis
import RoboCrisp.Transition.Demux

namespace RoboCrisp.Input

open RoboCrisp.Transition

inductive ButtonState
  | UNKNOWN
  | PRESSED
  | RELEASED
deriving DecidableEq

-- What goes to the hooks of an event source. A quotient by zero is reported as it is.
inductive Report
  | axis (state : State)
  | not_finite (raw_value : RawValue)
  | button (raw_value : RawValue) (value : ButtonState)
deriving DecidableEq

structure EvDevButton where
  id : UInt32
deriving DecidableEq

structure EvDevAxis where
  id : UInt32
  axis : Axis
deriving DecidableEq

def Button.map (raw_value : RawValue) : ButtonState :=
  if raw_value ≠ 0 then .PRESSED else .RELEASED

def EvDevButton.post : Machine EvDevButton RawValue Report := fun button raw_value =>
  ([.button raw_value (Button.map raw_value)], button, true)

-- The exception of map() leaves run(). An overflow has no defined outcome, and ends it here.
def EvDevAxis.post : Machine EvDevAxis RawValue Report := fun source raw_value =>
  match source.axis.emulate raw_value with
  | .error _ => ([], source, false)
  | .ok (emulated, axis) =>
      match source.axis.post raw_value with
      | .ok (state, _) => ([.axis state], { source with axis }, true)
      | .error .division_by_zero =>
          ([.not_finite (source.axis.clip emulated)], { source with axis }, true)
      | .error _ => ([], { source with axis }, false)

-- linux/input.h

def EV_KEY : UInt16 := 1
def EV_REL : UInt16 := 2
def EV_ABS : UInt16 := 3

def ABS_CNT : Nat := 64
def REL_CNT : Nat := 16
def EV_CNT : Nat := 32
def KEY_CNT : Nat := 768

structure InputEvent where
  type : UInt16
  code : UInt16
  value : Int32
deriving DecidableEq

structure AbsInfo where
  value : Int32
  minimum : Int32
  maximum : Int32
  flat : Int32
deriving DecidableEq

-- What libevdev says of a device.
structure Device where
  has_event_type : UInt16 → Bool
  get_abs_info : Nat → Option AbsInfo
  has_event_code : UInt16 → Nat → Bool

-- An element of `_axes`, where a relative axis has no information.
structure AxisEntry where
  type : UInt16
  code : UInt16
  absinfo : Option AbsInfo
deriving DecidableEq

namespace AxisEntry

def key (entry : AxisEntry) : UInt16 × UInt16 := (entry.type, entry.code)

def axis (entry : AxisEntry) : EvDevAxis :=
  match entry.absinfo with
  | some info =>
      ⟨entry.code.toUInt32, .of_raw ⟨info.value, info.minimum, info.maximum, info.flat, info.flat⟩⟩
  | none => ⟨entry.code.toUInt32, .of_type .RELATIVE⟩

end AxisEntry

namespace Device

def absolute_axis (d : Device) (i : Nat) : Option AxisEntry :=
  match d.get_abs_info i with
  | some info => if info.minimum ≠ info.maximum then some ⟨EV_ABS, .ofNat i, some info⟩ else none
  | none => none

def relative_axis (d : Device) (i : Nat) : Option AxisEntry :=
  if d.has_event_code EV_REL i then some ⟨EV_REL, .ofNat i, none⟩ else none

def axes (d : Device) : List AxisEntry :=
  (if d.has_event_type EV_ABS then (List.range ABS_CNT).filterMap d.absolute_axis else []) ++
    (if d.has_event_type EV_REL then (List.range EV_CNT).filterMap d.relative_axis else [])

def buttons (d : Device) : List UInt16 :=
  if d.has_event_type EV_KEY then
    ((List.range KEY_CNT).filter (d.has_event_code EV_KEY)).map UInt16.ofNat
  else []

end Device

-- std::unordered_map, where a key that is there already keeps its value.
section UnorderedMap

variable {κ : Type} [DecidableEq κ]

def emplace (map : List (κ × Nat)) (key : κ) (i : Nat) : List (κ × Nat) :=
  if map.any (·.1 = key) then map else map ++ [(key, i)]

def find (map : List (κ × Nat)) (key : κ) : Option Nat := (map.find? (·.1 = key)).map Prod.snd

end UnorderedMap

-- Where a report comes from.
inductive Source
  | axis (i : Nat)
  | button (i : Nat)
deriving DecidableEq

structure EvDevController where
  m_axes : List EvDevAxis
  m_buttons : List EvDevButton
  m_axis_map : List ((UInt16 × UInt16) × Nat)
  m_button_map : List (UInt16 × Nat)
deriving DecidableEq

namespace EvDevController

def add_axis (c : EvDevController) (entry : AxisEntry) : EvDevController :=
  { c with
    m_axes := c.m_axes ++ [entry.axis]
    m_axis_map := emplace c.m_axis_map entry.key c.m_axes.length }

def add_button (c : EvDevController) (code : UInt16) : EvDevController :=
  { c with
    m_buttons := c.m_buttons ++ [⟨code.toUInt32⟩]
    m_button_map := emplace c.m_button_map code c.m_buttons.length }

def empty : EvDevController where
  m_axes := []
  m_buttons := []
  m_axis_map := []
  m_button_map := []

-- The constructor, on a device that could be opened. There's no result where `_axes` is too small.
def construct (d : Device) : Option EvDevController :=
  if d.axes.length ≤ ABS_CNT + REL_CNT then
    some (d.buttons.foldl add_button (d.axes.foldl add_axis empty))
  else none

def post_axis (c : EvDevController) (i : Nat) (value : Int32) :
    List (Source × Report) × EvDevController × Bool :=
  match c.m_axes[i]? with
  | some axis =>
      ((axis.post value).1.map (.axis i, ·), { c with m_axes := c.m_axes.set i (axis.post value).2.1 },
        (axis.post value).2.2)
  | none => ([], c, false)

def post_button (c : EvDevController) (i : Nat) (value : Int32) :
    List (Source × Report) × EvDevController × Bool :=
  match c.m_buttons[i]? with
  | some button =>
      ((button.post value).1.map (.button i, ·),
        { c with m_buttons := c.m_buttons.set i (button.post value).2.1 }, (button.post value).2.2)
  | none => ([], c, false)

-- A turn of the loop of run(). Other types of events are at most written to stderr.
def handle : Machine EvDevController InputEvent (Source × Report) := fun c ev =>
  if ev.type = EV_REL ∨ ev.type = EV_ABS then
    match find c.m_axis_map (ev.type, ev.code) with
    | some i => c.post_axis i ev.value
    | none => ([], c, true)
  else if ev.type = EV_KEY then
    match find c.m_button_map ev.code with
    | some i => c.post_button i ev.value
    | none => ([], c, true)
  else ([], c, true)

-- run(), on the events that are read before the device fails or is closed.
def run (c : EvDevController) (events : List InputEvent) :
    List (Source × Report) × EvDevController × Bool := handle.run c events

end EvDevController

end RoboCrisp.Input
