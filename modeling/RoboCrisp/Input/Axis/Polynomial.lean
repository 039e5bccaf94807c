import Mathlib.Algebra.Field.Rat
import RoboCrisp.Expansion.Horner
import RoboCrisp.Input.Axis

namespace RoboCrisp.Input

open RoboCrisp.Expansion

-- std::vector::resize, and std::reverse_copy over the first elements of what is there.
def resize (elements : List Value) (size : Nat) : List Value :=
  elements.take size ++ List.replicate (size - elements.length) 0

def reverse_copy (source dest : List Value) : List Value := source.reverse ++ dest.drop source.length

theorem length_resize (elements : List Value) (size : Nat) : (resize elements size).length = size := by
  simp only [resize, List.length_append, List.length_take, List.length_replicate]
  omega

namespace Axis

-- Whatever list there was before, none of it is left.
theorem coefficients_set_coefficients (axis : Axis) (list : List Value) :
    (axis.set_coefficients list).coefficients =
      reverse_copy list (resize axis.coefficients list.length) := by
  rw [reverse_copy, List.drop_eq_nil_of_le (length_resize _ _).le, List.append_nil]
  rfl

-- The loop of map(Value) adds the powers below `i` to what it has.
theorem expand_eq (coefficients : List Value) (x : Value) (i : Nat) (out : Value) :
    expand coefficients x i out = out + ∑ j ∈ Finset.range i, coefficients.getD j 0 * x ^ j := by
  induction i generalizing out with
  | zero => simp [expand]
  | succ i ih =>
      rw [expand, ih, Finset.sum_range_succ]
      ring

theorem map_value_eq_expansion {axis : Axis} (hmethod : axis.map_method = .POLYNOMIAL) (x : Value) :
    axis.map_value x = expansion axis.coefficients x := by
  rw [map_value, hmethod]
  simp only [expand_eq, zero_add]
  rfl

theorem map_value_set_coefficients (axis : Axis) (list : List Value) (x : Value) :
    (axis.set_coefficients list).map_value x = horner list x := by
  rw [horner_eq_expansion]
  exact map_value_eq_expansion rfl x

-- A polynomial axis evaluates the polynomial whose coefficients it was given last, with the
-- highest order first.
theorem evaluates_polynomial (list : List Value) (x : Value) :
    (∀ axis : Axis,
      (axis.set_coefficients list).map_value x =
        ∑ i ∈ Finset.range list.length, list.getD i 0 * x ^ (list.length - 1 - i) ∧
      (axis.set_coefficients list).map_value x = horner list x ∧
      (axis.set_coefficients []).map_value x = 0) ∧
    ∀ raw : RawConfig,
      (of_coefficients raw list).map_value x =
        ∑ i ∈ Finset.range list.length, list.getD i 0 * x ^ (list.length - 1 - i) ∧
      (of_coefficients raw list).map_value x = horner list x ∧
      (of_coefficients raw []).map_value x = 0 := by
  have hset (axis : Axis) : (axis.set_coefficients list).map_value x =
        ∑ i ∈ Finset.range list.length, list.getD i 0 * x ^ (list.length - 1 - i) ∧
      (axis.set_coefficients list).map_value x = horner list x ∧
      (axis.set_coefficients []).map_value x = 0 := by
    refine ⟨?_, map_value_set_coefficients axis list x, map_value_set_coefficients axis [] x⟩
    rw [map_value_set_coefficients, horner_eq_expansion, expansion_reverse]
  exact ⟨hset, fun raw => hset _⟩

end Axis

end RoboCrisp.Input
