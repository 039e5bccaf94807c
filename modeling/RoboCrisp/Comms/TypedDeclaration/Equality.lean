import RoboCrisp.Comms.TypedDeclaration.Conversion
import RoboCrisp.Comms.DataDeclaration.Lemmas

namespace RoboCrisp.Comms

open RoboCrisp.Util

open Arithmetic (category is_signed sizeof bytes)

namespace DataDeclaration

-- Both flags are the same, and a bound that is present agrees with the other one in its
-- first `width` bytes, which are all in the slots.
structure SameBound (present o_present : Bool) (slot o_slot : Slot) (width : Nat) : Prop where
  present_eq : present = o_present
  bytes_eq : present = true →
    width ≤ 16 ∧ slot.bytes.take width = o_slot.bytes.take width

theorem load_slot (slot : Slot) (width : Nat) :
    load slot.bytes width = if width ≤ 16 then some (slot.bytes.take width) else none := by
  rw [load, slot.length_eq]

-- Inside the slots the comparison is the one without a limit.
theorem compare_bound_of_le {present o_present : Bool} {slot o_slot : Slot} {width : Nat}
    (h : present = true → width ≤ 16) : compare_bound present o_present slot o_slot width =
      some (present = o_present && (!present || slot.bytes.take width = o_slot.bytes.take width)) := by
  unfold compare_bound
  by_cases hpresent : present = o_present
  · rw [if_pos hpresent, decide_eq_true hpresent]
    cases present with
    | false => rfl
    | true =>
        simp only [if_true, load_slot, if_pos (h rfl)]
        rfl
  · rw [if_neg hpresent, decide_eq_false hpresent]
    rfl

theorem compare_bound_iff {present o_present : Bool} {slot o_slot : Slot} {width : Nat} :
    compare_bound present o_present slot o_slot width = some true ↔
      SameBound present o_present slot o_slot width := by
  unfold compare_bound
  by_cases hpresent : present = o_present
  · rw [if_pos hpresent]
    cases present with
    | false => exact ⟨fun _ => ⟨hpresent, nofun⟩, fun _ => rfl⟩
    | true =>
        simp only [if_true, load_slot]
        by_cases hwidth : width ≤ 16
        · simp only [if_pos hwidth, Option.bind_eq_bind, Option.bind_some, Option.pure_def,
            Option.some.injEq, decide_eq_true_eq]
          exact ⟨fun h => ⟨hpresent, fun _ => ⟨hwidth, h⟩⟩, fun h => (h.bytes_eq rfl).2⟩
        · rw [if_neg hwidth]
          exact ⟨nofun, fun h => absurd (h.bytes_eq rfl).1 hwidth⟩
  · rw [if_neg hpresent]
    exact ⟨nofun, fun h => absurd h.present_eq hpresent⟩

-- The comparison goes on behind a bound only if that one was the same.
theorem and_then_iff {first second : Option Bool} :
    (do let a ← first
        if a = false then return false
        second) = some true ↔ first = some true ∧ second = some true := by
  rcases first with _ | _ | _ <;> simp

theorem and_then_some (first second : Bool) :
    (do let a ← some first
        if a = false then return false
        some second) = some (first && second) := by
  cases first <;> rfl

theorem compare_iff {obj o : DataDeclaration} : obj.compare o = some true ↔
    (obj.type = o.type ∧ obj.width = o.width ∧ obj.is_signed = o.is_signed) ∧
      SameBound obj.has_neutral_value o.has_neutral_value obj.neutral_value o.neutral_value
        obj.width.toNat ∧
      SameBound obj.has_minimum_value o.has_minimum_value obj.minimum_value o.minimum_value
        obj.width.toNat ∧
      SameBound obj.has_maximum_value o.has_maximum_value obj.maximum_value o.maximum_value
        obj.width.toNat := by
  rw [compare]
  by_cases hheader : obj.type = o.type ∧ obj.width = o.width ∧ obj.is_signed = o.is_signed
  · rw [if_pos hheader, and_then_iff, and_then_iff, compare_bound_iff, compare_bound_iff,
      compare_bound_iff]
    exact (and_iff_right hheader).symm
  · rw [if_neg hheader]
    exact ⟨nofun, fun h => absurd h.1 hheader⟩

theorem Sound.compare_eq {obj : DataDeclaration} (h : obj.Sound) (o : DataDeclaration) :
    obj.compare o = some (obj.eq o) := by
  obtain ⟨hneutral, hminimum, hmaximum⟩ := h.width_le
  rw [compare, compare_bound_of_le hneutral, compare_bound_of_le hminimum,
    compare_bound_of_le hmaximum, and_then_some, and_then_some, eq]
  by_cases hheader : obj.type = o.type ∧ obj.width = o.width ∧ obj.is_signed = o.is_signed
  · rw [if_pos hheader]
    simp only [hheader.1, hheader.2.1, hheader.2.2, decide_true, Bool.true_and, Bool.and_assoc]
  · rw [if_neg hheader]
    rw [not_and_or, not_and_or] at hheader
    obtain htype | hwidth | hsigned := hheader
    · simp [htype]
    · simp [hwidth]
    · simp [hsigned]

end DataDeclaration

namespace TypedDeclaration

variable {T : Type}

section Operators

variable [Arithmetic T] {obj : TypedDeclaration T} {o : DataDeclaration}

-- What the typed operator goes by, apart from the width.
structure Alike (obj : TypedDeclaration T) (o : DataDeclaration) : Prop where
  type_eq : o.type = (type T).code
  is_signed_eq : o.is_signed = is_signed T
  neutral_eq : o.has_neutral_value = obj.has_neutral_value
  minimum_eq : o.has_minimum_value = obj.has_minimum_value
  maximum_eq : o.has_maximum_value = obj.has_maximum_value

-- Every bound that is present starts with the bytes of the other one, as many as the
-- width says. No more than a slot is compared.
structure BoundsAgree (obj : TypedDeclaration T) (o : DataDeclaration) : Prop where
  neutral : obj.has_neutral_value = true → o.width.toNat ≤ 16 ∧
    (slotOf obj.neutral_value).bytes.take o.width.toNat = o.neutral_value.bytes.take o.width.toNat
  minimum : obj.has_minimum_value = true → o.width.toNat ≤ 16 ∧
    (slotOf obj.minimum_value).bytes.take o.width.toNat = o.minimum_value.bytes.take o.width.toNat
  maximum : obj.has_maximum_value = true → o.width.toNat ≤ 16 ∧
    (slotOf obj.maximum_value).bytes.take o.width.toNat = o.maximum_value.bytes.take o.width.toNat

theorem eq_iff : obj.eq o = true ↔ obj.Alike o ∧ o.width.toNat = obj.width.toNat := by
  simp only [eq, Bool.and_eq_true, decide_eq_true_eq, decide_true, Bool.or_true, and_true]
  constructor
  · rintro ⟨⟨⟨⟨⟨htype, hwidth⟩, hsigned⟩, hneutral⟩, hminimum⟩, hmaximum⟩
    exact ⟨⟨htype, hsigned, hneutral, hminimum, hmaximum⟩, hwidth⟩
  · rintro ⟨⟨htype, hsigned, hneutral, hminimum, hmaximum⟩, hwidth⟩
    exact ⟨⟨⟨⟨⟨htype, hwidth⟩, hsigned⟩, hneutral⟩, hminimum⟩, hmaximum⟩

theorem sameBound_slotIf_iff {present o_present : Bool} {value : T} {slot : Slot} {width : Nat} :
    DataDeclaration.SameBound present o_present (slotIf present value) slot width ↔
      o_present = present ∧
        (present = true → width ≤ 16 ∧ (slotOf value).bytes.take width = slot.bytes.take width) := by
  cases present with
  | false => exact ⟨fun h => ⟨h.present_eq.symm, nofun⟩, fun h => ⟨h.1.symm, nofun⟩⟩
  | true => exact ⟨fun h => ⟨h.present_eq.symm, h.bytes_eq⟩, fun h => ⟨h.1.symm, h.2⟩⟩

theorem compare_generic_iff : obj.generic_integral.compare o = some true ↔
    (obj.Alike o ∧ obj.width.setWidth 5 = o.width) ∧ obj.BoundsAgree o := by
  rw [DataDeclaration.compare_iff]
  simp only [generic_integral, generic_with, sameBound_slotIf_iff]
  constructor
  · rintro ⟨⟨htype, hwidth, hsigned⟩, ⟨hneutral, hn⟩, ⟨hminimum, hm⟩, ⟨hmaximum, hx⟩⟩
    rw [hwidth] at hn hm hx
    exact ⟨⟨⟨htype.symm, hsigned.symm, hneutral, hminimum, hmaximum⟩, hwidth⟩, hn, hm, hx⟩
  · rintro ⟨⟨⟨htype, hsigned, hneutral, hminimum, hmaximum⟩, hwidth⟩, hn, hm, hx⟩
    rw [hwidth]
    exact ⟨⟨htype.symm, rfl, hsigned.symm⟩, ⟨hneutral, hn⟩, ⟨hminimum, hm⟩, hmaximum, hx⟩

end Operators

variable [Integral T]

-- The operators agree on declarations that differ in what both look at. Otherwise the
-- generic one looks at the bounds, and the typed one at the bits of the width that are lost
-- in the conversion.
theorem eq_agrees_iff (obj : TypedDeclaration T) (o : DataDeclaration) :
    (obj.eq o = true ↔ obj.generic.compare o = some true) ↔
      (obj.Alike o ∧ obj.width.setWidth 5 = o.width →
        (obj.width.toNat < 32 ↔ obj.BoundsAgree o)) := by
  have hwidth : o.width.toNat = obj.width.toNat ↔
      obj.width.setWidth 5 = o.width ∧ obj.width.toNat < 32 := by
    have hlt := o.width.isLt
    rw [← BitVec.toNat_inj, BitVec.toNat_setWidth]
    omega
  rw [generic_of_integral, compare_generic_iff, eq_iff, hwidth, ← and_assoc]
  by_cases halike : obj.Alike o ∧ obj.width.setWidth 5 = o.width
  · simp only [halike, true_and, forall_const]
  · simp only [halike, false_and, false_imp_iff]

-- Two declarations that differ in their neutral values.
def heading : TypedDeclaration int8_t := (blank_integral 0).set_neutral ⟨0⟩

def bearing : TypedDeclaration int8_t := (blank_integral 0).set_neutral ⟨90⟩

theorem heading_not_eq_agrees :
    ¬(heading.eq bearing.generic = true ↔ heading.generic.compare bearing.generic = some true) := by
  decide

end TypedDeclaration

end RoboCrisp.Comms
