import Mathlib.Algebra.BigOperators.Intervals
import Mathlib.Algebra.BigOperators.Ring.Finset
import Mathlib.Tactic.Ring

namespace RoboCrisp.Expansion

variable {R : Type} [CommSemiring R]

-- Horner's rule, with the highest order first.
def horner (coefficients : List R) (x : R) : R :=
  coefficients.foldl (fun out c => out * x + c) 0

-- The sum of the powers of `x`, each with its coefficient, with the lowest order first.
def expansion (coefficients : List R) (x : R) : R :=
  ∑ i ∈ Finset.range coefficients.length, coefficients.getD i 0 * x ^ i

theorem expansion_cons (c : R) (coefficients : List R) (x : R) :
    expansion (c :: coefficients) x = c + x * expansion coefficients x := by
  have hshift (i : Nat) : (c :: coefficients).getD (i + 1) 0 * x ^ (i + 1) =
      x * (coefficients.getD i 0 * x ^ i) := by
    rw [List.getD_cons_succ]
    ring
  simp only [expansion, List.length_cons, Finset.sum_range_succ', hshift, ← Finset.mul_sum]
  rw [List.getD_cons_zero, pow_zero, mul_one, add_comm]

theorem horner_concat (coefficients : List R) (c x : R) :
    horner (coefficients ++ [c]) x = horner coefficients x * x + c := by
  simp [horner]

theorem horner_eq_expansion (coefficients : List R) (x : R) :
    horner coefficients x = expansion coefficients.reverse x := by
  induction coefficients using List.reverseRecOn with
  | nil => rfl
  | append_singleton coefficients c ih =>
      rw [horner_concat, List.reverse_append, List.reverse_singleton, List.singleton_append,
        expansion_cons, ih]
      ring

-- From the highest order down, the exponents count what is still to come.
theorem expansion_reverse (coefficients : List R) (x : R) :
    expansion coefficients.reverse x =
      ∑ i ∈ Finset.range coefficients.length, coefficients.getD i 0 * x ^ (coefficients.length - 1 - i) := by
  rw [expansion, List.length_reverse, ← Finset.sum_range_reflect]
  refine Finset.sum_congr rfl fun i hi => ?_
  have hlt := Finset.mem_range.mp hi
  have hindex : coefficients.length - 1 - (coefficients.length - 1 - i) = i := by omega
  rw [List.getD_eq_getElem?_getD, List.getElem?_reverse (by omega), hindex,
    List.getD_eq_getElem?_getD]

end RoboCrisp.Expansion
