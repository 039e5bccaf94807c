import Mathlib.Logic.Function.Basic

namespace RoboCrisp.Ownership

open Function

variable {ι α : Type*} [DecidableEq ι] {owner : ι → Option α} {i j : ι} {a : α}

-- Each thing has at most one owner.
def Exclusive (owner : ι → Option α) : Prop :=
  ∀ i j a, owner i = some a → owner j = some a → i = j

theorem Exclusive.drop (h : Exclusive owner) (i : ι) : Exclusive (update owner i none) := by
  intro j k a hj hk
  rw [update_apply] at hj hk
  split at hj
  · contradiction
  · split at hk
    · contradiction
    · exact h j k a hj hk

-- What nobody owns can be taken, in exchange for what the new owner had.
theorem Exclusive.take (h : Exclusive owner) (i : ι) (hfree : ∀ j, j ≠ i → owner j ≠ some a) :
    Exclusive (update owner i (some a)) := by
  intro j k b hj hk
  rw [update_apply] at hj hk
  split at hj
  · rename_i hji
    obtain rfl := Option.some.inj hj
    split at hk
    · rename_i hki
      rw [hji, hki]
    · rename_i hki
      exact absurd hk (hfree k hki)
  · rename_i hji
    split at hk
    · obtain rfl := Option.some.inj hk
      exact absurd hj (hfree j hji)
    · exact h j k b hj hk

-- One owner hands on what it has to another one.
theorem Exclusive.transfer (h : Exclusive owner) (i j : ι) :
    Exclusive (update (update owner i (owner j)) j none) := by
  intro k l b hk hl
  rw [update_apply, update_apply] at hk hl
  split at hk
  · contradiction
  · rename_i hkj
    split at hl
    · contradiction
    · rename_i hlj
      split at hk <;> split at hl
      · rename_i hki hli
        rw [hki, hli]
      · exact absurd (h _ _ _ hk hl).symm hlj
      · exact absurd (h _ _ _ hk hl) hkj
      · exact h _ _ _ hk hl

end RoboCrisp.Ownership
