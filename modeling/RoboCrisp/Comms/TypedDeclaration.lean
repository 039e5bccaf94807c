import RoboCrisp.Comms.DataDeclaration

namespace RoboCrisp.Comms

open RoboCrisp.Stream RoboCrisp.Util

-- std::is_integral or std::is_floating_point. Each selects one specialization of
-- DataDeclarationBase.
inductive Category
  | integral
  | floating_point
deriving DecidableEq

-- An arithmetic type, with the bytes that memory holds for each of its values. None is
-- wider than the sixteen bytes of a long double.
class Arithmetic (T : Type) where
  category : Category
  is_signed : Bool
  sizeof : Nat
  sizeof_le : sizeof ≤ 16
  bytes : T → Bytes
  length_bytes : ∀ value, (bytes value).length = sizeof

-- `max` is std::numeric_limits<T>::max().
class Integral (T : Type) extends Arithmetic T where
  category_eq : category = .integral
  max : T

class FloatingPoint (T : Type) extends Arithmetic T where
  category_eq : category = .floating_point
  isnan : T → Bool
  quiet_NaN : T
  isnan_quiet_NaN : isnan quiet_NaN = true

open Arithmetic (category is_signed sizeof bytes)

attribute [simp] Arithmetic.length_bytes

-- An integer of `size` bytes.
structure Integer (size : Fin 17) (is_signed : Bool) where
  bits : BitVec (8 * size)
deriving DecidableEq

instance {size : Fin 17} {is_signed : Bool} : Integral (Integer size is_signed) where
  category := .integral
  is_signed := is_signed
  sizeof := size
  sizeof_le := Nat.lt_succ_iff.mp size.isLt
  bytes value := littleEndian size value.bits.toNat
  length_bytes _ := length_littleEndian _ _
  category_eq := rfl
  max := ⟨BitVec.allOnes (8 * size) >>> is_signed.toNat⟩

abbrev int8_t := Integer 1 true

instance : Integral Bool where
  category := .integral
  is_signed := false
  sizeof := 1
  sizeof_le := by decide
  bytes value := [UInt8.ofNat value.toNat]
  length_bytes _ := rfl
  category_eq := rfl
  max := true

-- A binary floating-point number as its bits: a sign, an exponent, and `fraction` bits
-- of a significand that leave room for both.
structure Binary (size : Fin 17) (fraction : Nat) where
  bits : BitVec (8 * size)
deriving DecidableEq

namespace Binary

variable {size : Fin 17} {fraction : Nat}

def exponentMax (size : Fin 17) (fraction : Nat) : Nat := 2 ^ (8 * size - 1 - fraction) - 1

def isnan (value : Binary size fraction) : Bool :=
  value.bits.toNat / 2 ^ fraction % 2 ^ (8 * size - 1 - fraction) = exponentMax size fraction &&
    value.bits.toNat % 2 ^ fraction ≠ 0

-- The highest bit of the fraction tells a quiet NaN from a signaling one.
def quiet_NaN (size : Fin 17) (fraction : Nat) : Binary size fraction :=
  ⟨BitVec.ofNat _ (exponentMax size fraction * 2 ^ fraction + 2 ^ (fraction - 1))⟩

end Binary

-- float, as binary32.
abbrev float := Binary 4 23

instance : FloatingPoint float where
  category := .floating_point
  is_signed := true
  sizeof := 4
  sizeof_le := by decide
  bytes value := littleEndian 4 value.bits.toNat
  length_bytes _ := length_littleEndian _ _
  category_eq := rfl
  isnan := Binary.isnan
  quiet_NaN := Binary.quiet_NaN 4 23
  isnan_quiet_NaN := by decide

-- double, as binary64.
abbrev double := Binary 8 52

instance : FloatingPoint double where
  category := .floating_point
  is_signed := true
  sizeof := 8
  sizeof_le := by decide
  bytes value := littleEndian 8 value.bits.toNat
  length_bytes _ := length_littleEndian _ _
  category_eq := rfl
  isnan := Binary.isnan
  quiet_NaN := Binary.quiet_NaN 8 52
  isnan_quiet_NaN := by decide

-- The keyword arguments of DataDeclaration<T>, all of them optional.
structure Keywords (T : Type) where
  neutral : Option T
  minimum : Option T
  maximum : Option T
  array : Option Bool
  width : Option UInt8
  array_size_width : Option UInt8

-- DataDeclarationBase<T> in either specialization: their fields are the same.
structure TypedDeclaration (T : Type) where
  width : BitVec 12
  array_size_width : UInt8
  is_array : Bool
  has_neutral_value : Bool
  has_minimum_value : Bool
  has_maximum_value : Bool
  neutral_value : T
  minimum_value : T
  maximum_value : T

namespace TypedDeclaration

variable {T : Type}

-- static constexpr DataType type
def type (T : Type) [Arithmetic T] : DataType :=
  match category T with
  | .integral => .INTEGER
  | .floating_point => .FLOAT

section Constructors

-- No constructor initializes array_size_width. It is what `memory` held before.

def blank (memory : UInt8) (width : Nat) (unset : T) : TypedDeclaration T where
  width := BitVec.ofNat 12 width
  array_size_width := memory
  is_array := false
  has_neutral_value := false
  has_minimum_value := false
  has_maximum_value := false
  neutral_value := unset
  minimum_value := unset
  maximum_value := unset

-- A bound that is not given is set to `unset`, and one that is equal to it counts as not
-- given.
def construct [Arithmetic T] (memory : UInt8) (unset : T) (given : T → Bool)
    (args : Keywords T) : TypedDeclaration T where
  width := BitVec.ofNat 12 ((args.width.map UInt8.toNat).getD (sizeof T))
  array_size_width := memory
  is_array := args.array.getD false
  has_neutral_value := given (args.neutral.getD unset)
  has_minimum_value := given (args.minimum.getD unset)
  has_maximum_value := given (args.maximum.getD unset)
  neutral_value := args.neutral.getD unset
  minimum_value := args.minimum.getD unset
  maximum_value := args.maximum.getD unset

def blank_integral [Integral T] (memory : UInt8) : TypedDeclaration T :=
  blank memory (sizeof T) Integral.max

def construct_integral [Integral T] [DecidableEq T] (memory : UInt8) (args : Keywords T) :
    TypedDeclaration T :=
  construct memory Integral.max (fun value => value ≠ Integral.max) args

def construct_floating_point [FloatingPoint T] (memory : UInt8) (args : Keywords T) :
    TypedDeclaration T :=
  construct memory FloatingPoint.quiet_NaN (fun value => !FloatingPoint.isnan value) args

end Constructors

def set_neutral (obj : TypedDeclaration T) (n : T) : TypedDeclaration T :=
  { obj with has_neutral_value := true, neutral_value := n }

def set_minimum (obj : TypedDeclaration T) (n : T) : TypedDeclaration T :=
  { obj with has_minimum_value := true, minimum_value := n }

def set_maximum (obj : TypedDeclaration T) (n : T) : TypedDeclaration T :=
  { obj with has_maximum_value := true, maximum_value := n }

variable [Arithmetic T]

-- The bytes of a value at the start of a zeroed slot.
def slotOf (value : T) : Slot where
  bytes := bytes value ++ List.replicate (16 - sizeof T) 0
  length_eq := by
    have hsize := Arithmetic.sizeof_le (T := T)
    simp
    omega

-- if ( present ) memcpy(slot, &value, sizeof(_ValueType));
def slotIf (present : Bool) (value : T) : Slot := if present then slotOf value else .zero

-- What the conversions of both specializations have in common. Neither of them copies
-- array_size_width. `minimum` is the value that goes to the slot of the minimum.
def generic_with (obj : TypedDeclaration T) (minimum : T) : DataDeclaration :=
  { DataDeclaration.empty with
    type := (type T).code
    width := obj.width.setWidth 5
    is_array := obj.is_array
    is_signed := is_signed T
    has_neutral_value := obj.has_neutral_value
    has_minimum_value := obj.has_minimum_value
    has_maximum_value := obj.has_maximum_value
    neutral_value := slotIf obj.has_neutral_value obj.neutral_value
    minimum_value := slotIf obj.has_minimum_value minimum
    maximum_value := slotIf obj.has_maximum_value obj.maximum_value }

def generic_integral (obj : TypedDeclaration T) : DataDeclaration :=
  obj.generic_with obj.minimum_value

-- memcpy(out.minimum_value, &neutral_value, sizeof(_ValueType));
def generic_floating_point (obj : TypedDeclaration T) : DataDeclaration :=
  obj.generic_with obj.neutral_value

-- operator DataDeclarationBase<>()
def generic (obj : TypedDeclaration T) : DataDeclaration :=
  match category T with
  | .integral => obj.generic_integral
  | .floating_point => obj.generic_floating_point

def get_tail_size (obj : TypedDeclaration T) : Nat :=
  obj.width.toNat *
    (obj.has_neutral_value.toNat + obj.has_minimum_value.toNat + obj.has_maximum_value.toNat)

def get_encoded_size (obj : TypedDeclaration T) : Nat :=
  DataDeclaration.HeaderSize + obj.get_tail_size

def encode (obj : TypedDeclaration T) : Encode := obj.generic.encode

-- operator ==. Each bound of the other declaration is compared with itself.
def eq (obj : TypedDeclaration T) (o : DataDeclaration) : Bool :=
  o.type = (type T).code && o.width.toNat = obj.width.toNat && o.is_signed = is_signed T &&
    o.has_neutral_value = obj.has_neutral_value &&
    (!obj.has_neutral_value || o.neutral_value = o.neutral_value) &&
    o.has_minimum_value = obj.has_minimum_value &&
    (!obj.has_minimum_value || o.minimum_value = o.minimum_value) &&
    o.has_maximum_value = obj.has_maximum_value &&
    (!obj.has_maximum_value || o.maximum_value = o.maximum_value)

end TypedDeclaration

end RoboCrisp.Comms
