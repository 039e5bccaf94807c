import Mathlib.Algebra.Order.Field.Rat
import Mathlib.Algebra.Order.Group.Unbundled.Abs

namespace RoboCrisp.Input

-- Values are exact rationals: the rounding of `double` is left out.
abbrev Value := ℚ
abbrev RawValue := Int32

inductive AxisType
  | ABSOLUTE
  | RELATIVE
deriving DecidableEq

inductive MapMethod
  | NONE
  | LINEAR
  | POLYNOMIAL
deriving DecidableEq

structure RawConfig where
  neutral : Int32
  minimum : Int32
  maximum : Int32
  deadzone_lower : Int32
  deadzone_upper : Int32
deriving DecidableEq

inductive AxisFailure
  | overflow
  | division_by_zero
  | runtime_error (what : String)
deriving DecidableEq

-- What int32_t arithmetic gives. It is undefined when the result does not fit.
def int32 (value : Int) : Except AxisFailure Int32 :=
  if -2 ^ 31 ≤ value ∧ value < 2 ^ 31 then .ok (Int32.ofInt value) else .error .overflow

def divide (x y : Value) : Except AxisFailure Value :=
  if y = 0 then .error .division_by_zero else .ok (x / y)

structure Axis where
  type : AxisType
  mode : AxisType
  m_last_raw_value : RawValue
  map_method : MapMethod
  raw : RawConfig
  coefficients : List Value
deriving DecidableEq

structure State where
  raw_value : RawValue
  value : Value
deriving DecidableEq

-- The first part of map(RawValue), up to the call of map(Value).
def RawConfig.linear (raw : RawConfig) (raw_value : RawValue) : Except AxisFailure Value := do
  let max ← int32 (raw.maximum.toInt - raw.neutral.toInt)
  let min ← int32 (raw.minimum.toInt - raw.neutral.toInt)
  let val ← int32 (raw_value.toInt - raw.neutral.toInt)
  let opposite ← int32 (-raw.minimum.toInt)
  if raw.maximum = opposite ∨ raw.minimum = raw.neutral then
    divide val.toInt max.toInt
  else if raw.maximum = raw.neutral then
    divide val.toInt min.toInt
  else
    let abs_max ← int32 |max.toInt|
    let abs_min ← int32 |min.toInt|
    if abs_max ≠ abs_min then
      divide val.toInt (Max.max |(max.toInt : Value)| |(min.toInt : Value)|)
    else
      .error (.runtime_error "Unhandled edge case in Axis::map(RawValue)")

namespace Axis

-- A list that is passed has the highest order first, the stored one has it last.
def set_coefficients (axis : Axis) (list : List Value) : Axis :=
  { axis with map_method := .POLYNOMIAL, coefficients := list.reverse }

def of_type (type : AxisType) : Axis := ⟨type, type, 0, .NONE, ⟨0, 0, 0, 0, 0⟩, []⟩

def of_raw (raw : RawConfig) : Axis := ⟨.ABSOLUTE, .ABSOLUTE, 0, .LINEAR, raw, []⟩

def of_coefficients (raw : RawConfig) (coefficients : List Value) : Axis :=
  set_coefficients ⟨.ABSOLUTE, .ABSOLUTE, 0, .POLYNOMIAL, raw, []⟩ coefficients

-- The loop of map(Value), with `i` terms to go.
def expand (coefficients : List Value) (x : Value) : Nat → Value → Value
  | 0, out => out
  | i + 1, out => expand coefficients x i (out + coefficients.getD i 0 * x ^ i)

def map_value (axis : Axis) (x : Value) : Value :=
  match axis.map_method with
  | .NONE => x
  | .LINEAR => x
  | .POLYNOMIAL => expand axis.coefficients x axis.coefficients.length 0

def map (axis : Axis) (raw_value : RawValue) : Except AxisFailure Value := do
  let x ← axis.raw.linear raw_value
  .ok (axis.map_value x)

-- Emulation of the axis type: the raw value that stands for the one that was posted, and the axis
-- as it is left.
def emulate (axis : Axis) (raw_value : RawValue) : Except AxisFailure (RawValue × Axis) :=
  if axis.mode ≠ axis.type then
    match axis.mode with
    | .RELATIVE => do
        let change ← int32 (raw_value.toInt - axis.m_last_raw_value.toInt)
        .ok (change, { axis with m_last_raw_value := raw_value })
    | .ABSOLUTE => do
        let sum ← int32 (raw_value.toInt + axis.m_last_raw_value.toInt)
        .ok (sum, { axis with m_last_raw_value := sum })
  else .ok (raw_value, axis)

def clip (axis : Axis) (raw_value : RawValue) : RawValue :=
  if axis.type = .ABSOLUTE ∨ axis.mode = .ABSOLUTE then
    min (max raw_value axis.raw.minimum) axis.raw.maximum
  else raw_value

-- The state that is emitted, and the axis after it.
def post (axis : Axis) (raw_value : RawValue) : Except AxisFailure (State × Axis) := do
  let (emulated, axis) ← axis.emulate raw_value
  let raw_value := axis.clip emulated
  if axis.map_method ≠ .NONE then
    let value ← axis.map raw_value
    .ok (⟨raw_value, value⟩, axis)
  else .ok (⟨raw_value, 0⟩, axis)

end Axis

end RoboCrisp.Input
