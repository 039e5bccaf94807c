import Mathlib.Algebra.GroupWithZero.Nat
import RoboCrisp.Transition.Run

namespace RoboCrisp.Transition

variable {σ ε : Type} {step : σ → ε → Option σ} {Allowed : σ → ε → Prop} {Inv Goal : σ → Prop}
  {s t : σ} {trace : List ε}

-- What each step adds so much to, a run adds the sum of it to.
theorem Run.adds (f : σ → Nat) (w : ε → Nat) (hrun : Run step Allowed s trace t)
    (hstep : ∀ {t u : σ} {e : ε}, step t e = some u → f u = f t + w e) :
    f t = f s + (trace.map w).sum := by
  induction hrun with
  | start => rfl
  | next _ _ hnext ih =>
      rw [hstep hnext, ih, List.map_append, List.sum_append, List.map_singleton, List.sum_singleton,
        Nat.add_assoc]

-- The same for what it adds no more than that to.
theorem Run.raises (f : σ → Nat) (w : ε → Nat) (hrun : Run step Allowed s trace t)
    (hstep : ∀ {t u : σ} {e : ε}, step t e = some u → f u ≤ f t + w e) :
    f t ≤ f s + (trace.map w).sum := by
  induction hrun with
  | start => exact Nat.le_add_right _ _
  | next _ _ hnext ih =>
      have hlast := hstep hnext
      rw [List.map_append, List.sum_append, List.map_singleton, List.sum_singleton]
      omega

-- As long as the goal has not been reached, an allowed step leads from a good state to a good
-- one that is nearer to it.
def Approaches (step : σ → ε → Option σ) (Allowed : σ → ε → Prop) (Inv Goal : σ → Prop)
    (distance : σ → Nat) : Prop :=
  ∀ {s}, Inv s → ¬Goal s →
    ∃ e t, Allowed s e ∧ step s e = some t ∧ Inv t ∧ distance t < distance s

-- Such steps do not go on for ever.
theorem Approaches.reaches {distance : σ → Nat} (happroach : Approaches step Allowed Inv Goal distance)
    {s : σ} (hs : Inv s) : ∃ trace t, Run step Allowed s trace t ∧ Inv t ∧ Goal t := by
  induction hn : distance s using Nat.strongRecOn generalizing s with
  | ind n ih =>
      by_cases hgoal : Goal s
      · exact ⟨[], s, .start, hs, hgoal⟩
      · obtain ⟨e, t, hallowed, hstep, ht, hlt⟩ := happroach hs hgoal
        obtain ⟨trace, u, hrun, hu, hgoal⟩ := ih (distance t) (hn ▸ hlt) ht rfl
        exact ⟨e :: trace, u, hrun.cons hallowed hstep, hu, hgoal⟩

-- What the elements of a list add up to, one of which changes.
theorem sum_map_modify {α : Type} (f : α → Nat) (g : α → α) {l : List α} {i : Nat} {a : α}
    (h : l[i]? = some a) : ((l.modify i g).map f).sum + f a = (l.map f).sum + f (g a) := by
  induction l generalizing i with
  | nil => simp at h
  | cons b l ih =>
      cases i with
      | zero =>
          obtain rfl := Option.some.inj h
          simp only [List.modify_zero_cons, List.map_cons, List.sum_cons]
          omega
      | succ i =>
          have hrest := ih h
          simp only [List.modify_succ_cons, List.map_cons, List.sum_cons]
          omega

end RoboCrisp.Transition
