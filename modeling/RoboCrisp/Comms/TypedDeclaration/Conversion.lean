import RoboCrisp.Comms.TypedDeclaration

namespace RoboCrisp.Comms

open RoboCrisp.Util

open Arithmetic (category is_signed sizeof bytes)

namespace TypedDeclaration

variable {T : Type}

section Bounds

variable [Arithmetic T]

-- A flag and its slot show a bound: the flag says whether there is one, and the slot starts
-- with its bytes.
structure Shows (present : Bool) (slot : Slot) (bound : Option T) : Prop where
  present_eq : present = bound.isSome
  prefix_of : ∀ value, bound = some value → bytes value <+: slot.bytes

-- The bound that a flag and a value stand for.
def bound (present : Bool) (value : T) : Option T := if present then some value else none

-- Two values of a type take as many bytes, so that none is a proper prefix of another.
theorem prefix_slotOf_iff (value other : T) :
    bytes value <+: (slotOf other).bytes ↔ bytes value = bytes other := by
  have hlength : (bytes value).length = (bytes other).length := by simp
  constructor
  · intro h
    exact (List.prefix_of_prefix_length_le h (List.prefix_append _ _) hlength.le).eq_of_length hlength
  · intro h
    rw [h]
    exact List.prefix_append _ _

-- A slot that was filled from another value shows the bound when the bytes are the same.
theorem shows_slotIf_iff (present : Bool) (value other : T) :
    Shows present (slotIf present other) (bound present value) ↔
      (present = true → bytes value = bytes other) := by
  cases present with
  | false => exact ⟨nofun, fun _ => ⟨rfl, nofun⟩⟩
  | true =>
      constructor
      · intro h _
        exact (prefix_slotOf_iff value other).mp (h.prefix_of value rfl)
      · intro h
        refine ⟨rfl, fun v hv => ?_⟩
        obtain rfl := Option.some.inj hv
        exact (prefix_slotOf_iff value other).mpr (h rfl)

theorem shows_slotIf (present : Bool) (value : T) :
    Shows present (slotIf present value) (bound present value) :=
  (shows_slotIf_iff present value value).mpr fun _ => rfl

end Bounds

section Categories

theorem generic_of_integral [Integral T] (obj : TypedDeclaration T) :
    obj.generic = obj.generic_integral := by
  simp only [generic, Integral.category_eq]

end Categories

section Faithful

variable [Arithmetic T]

-- A generic declaration that says everything a typed one does.
structure Represents (out : DataDeclaration) (obj : TypedDeclaration T) : Prop where
  type_eq : out.type = (type T).code
  width_eq : out.width.toNat = obj.width.toNat
  is_array_eq : out.is_array = obj.is_array
  is_signed_eq : out.is_signed = is_signed T
  array_size_width_eq : out.array_size_width = obj.array_size_width
  neutral : Shows out.has_neutral_value out.neutral_value
    (bound obj.has_neutral_value obj.neutral_value)
  minimum : Shows out.has_minimum_value out.minimum_value
    (bound obj.has_minimum_value obj.minimum_value)
  maximum : Shows out.has_maximum_value out.maximum_value
    (bound obj.has_maximum_value obj.maximum_value)

theorem toNat_sizeof_lt : sizeof T < 2 ^ 5 := by
  have hsize := Arithmetic.sizeof_le (T := T)
  omega

-- Whatever value goes to the slot of the minimum, only that slot and array_size_width can
-- be wrong.
theorem represents_generic_with_iff {obj : TypedDeclaration T} (h : obj.width.toNat = sizeof T)
    (minimum : T) : Represents (obj.generic_with minimum) obj ↔
      obj.array_size_width = 0 ∧
        (obj.has_minimum_value = true → bytes obj.minimum_value = bytes minimum) := by
  constructor
  · intro hrep
    exact ⟨hrep.array_size_width_eq.symm, (shows_slotIf_iff _ _ _).mp hrep.minimum⟩
  · rintro ⟨hsize, hminimum⟩
    have hwidth : (obj.width.setWidth 5).toNat = obj.width.toNat := by
      rw [BitVec.toNat_setWidth, h, Nat.mod_eq_of_lt toNat_sizeof_lt]
    exact ⟨rfl, hwidth, rfl, rfl, hsize.symm, shows_slotIf _ _, (shows_slotIf_iff _ _ _).mpr hminimum,
      shows_slotIf _ _⟩

-- Besides array_size_width, which is never copied, only the minimum of a floating-point
-- declaration can be lost: its slot gets the neutral value.
theorem represents_generic_iff {obj : TypedDeclaration T} (h : obj.width.toNat = sizeof T) :
    Represents obj.generic obj ↔ obj.array_size_width = 0 ∧
      (category T = .floating_point → obj.has_minimum_value = true →
        bytes obj.minimum_value = bytes obj.neutral_value) := by
  unfold generic
  cases hcategory : category T with
  | integral =>
      simp only
      rw [generic_integral, represents_generic_with_iff h]
      simp
  | floating_point =>
      simp only
      rw [generic_floating_point, represents_generic_with_iff h]
      simp

end Faithful

-- DataDeclaration<int8_t> { }, with its bounds set afterwards.
def level : TypedDeclaration int8_t :=
  (((blank_integral 0).set_neutral ⟨0⟩).set_minimum ⟨-100⟩).set_maximum ⟨100⟩

theorem level_represents : level.width.toNat = sizeof int8_t ∧ Represents level.generic level := by
  have hwidth : level.width.toNat = sizeof int8_t := rfl
  exact ⟨hwidth, (represents_generic_iff hwidth).mpr ⟨rfl, nofun⟩⟩

-- DataDeclaration<float> { _neutral = -2.0, _minimum = 1.0, _maximum = 4.0 }
def float_type : TypedDeclaration float :=
  construct_floating_point 0
    ⟨some ⟨0xC0000000⟩, some ⟨0x3F800000⟩, some ⟨0x40800000⟩, none, none, none⟩

theorem float_type_not_represents :
    float_type.width.toNat = sizeof float ∧ ¬Represents float_type.generic float_type := by
  refine ⟨rfl, fun h => ?_⟩
  have hminimum := h.minimum.prefix_of ⟨0x3F800000⟩ (by decide)
  exact absurd hminimum (by decide)

end TypedDeclaration

end RoboCrisp.Comms
