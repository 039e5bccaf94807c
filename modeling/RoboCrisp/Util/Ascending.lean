import Mathlib.Data.List.Sort

namespace RoboCrisp.Util

-- A strictly ascending list is determined by its members.
theorem eq_of_ascending {first second : List Nat} (hfirst : first.Pairwise (· < ·))
    (hsecond : second.Pairwise (· < ·)) (hmem : ∀ x, x ∈ first ↔ x ∈ second) : first = second := by
  have hperm : first.Perm second :=
    (List.perm_ext_iff_of_nodup (hfirst.imp Nat.ne_of_lt) (hsecond.imp Nat.ne_of_lt)).mpr hmem
  exact hperm.eq_of_pairwise (fun a b _ _ hab hba => absurd hab (by omega)) hfirst hsecond

theorem ascending_filter_range (count : Nat) (p : Nat → Bool) :
    ((List.range count).filter p).Pairwise (· < ·) :=
  List.pairwise_lt_range.filter p

section SortByKey

variable {α : Type} (key : α → Nat)

theorem ordered_insertionSort (elements : List α) :
    (elements.insertionSort fun a b => decide (key a ≤ key b)).Pairwise
      fun a b => key a ≤ key b := by
  let r : α → α → Prop := fun a b => decide (key a ≤ key b) = true
  have htotal : Std.Total r := ⟨fun a b => by simp only [r, decide_eq_true_eq]; omega⟩
  have htrans : IsTrans α r := ⟨fun a b c => by simp only [r, decide_eq_true_eq]; omega⟩
  have h := List.pairwise_insertionSort r elements
  exact h.imp fun hab => by simpa [r] using hab

-- Sorting by a key that no two elements share gives the ascending list of the keys.
theorem keys_insertionSort {elements : List α} {keys : List Nat} (hkeys : keys.Pairwise (· < ·))
    (hnodup : (elements.map key).Nodup) (hmem : ∀ x, x ∈ elements.map key ↔ x ∈ keys) :
    (elements.insertionSort fun a b => decide (key a ≤ key b)).map key = keys := by
  have hperm := (List.perm_insertionSort (fun a b => decide (key a ≤ key b)) elements).map key
  have hle : ((elements.insertionSort fun a b => decide (key a ≤ key b)).map key).Pairwise (· ≤ ·) :=
    List.pairwise_map.mpr (ordered_insertionSort key elements)
  have hne := hperm.nodup_iff.mpr hnodup
  refine eq_of_ascending ?_ hkeys fun x => (hperm.mem_iff).trans (hmem x)
  exact (hle.and hne).imp fun h => Nat.lt_of_le_of_ne h.1 h.2

end SortByKey

end RoboCrisp.Util
