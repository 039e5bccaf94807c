import RoboCrisp.Transition.Run
import Mathlib.Data.List.Induction

namespace RoboCrisp.Transition

variable {σ τ ε : Type} {step : σ → ε → Option σ} {astep : τ → ε → τ} {Rel Inv : σ → τ → Prop}
  {Allowed : σ → ε → Prop} {s : σ} {a : τ} {trace : List ε}

-- The steps of `trace` can all be taken, and after each of them the state goes with the one that
-- the abstract machine has reached with the same steps.
def Refines (step : σ → ε → Option σ) (astep : τ → ε → τ) (Rel : σ → τ → Prop) (s : σ) (a : τ)
    (trace : List ε) : Prop :=
  ∀ done, done <+: trace → ∃ t, Run step Always s done t ∧ Rel t (done.foldl astep a)

-- Whenever one of the steps of `trace` is to be taken, it is an allowed one.
def Meets (step : σ → ε → Option σ) (Allowed : σ → ε → Prop) (s : σ) (trace : List ε) : Prop :=
  ∀ done e, done ++ [e] <+: trace → ∀ t, Run step Always s done t → Allowed t e

theorem Refines.of_prefix {done : List ε} (h : Refines step astep Rel s a trace)
    (hdone : done <+: trace) : Refines step astep Rel s a done :=
  fun first hfirst => h first (hfirst.trans hdone)

theorem Meets.of_prefix {done : List ε} (h : Meets step Allowed s trace) (hdone : done <+: trace) :
    Meets step Allowed s done :=
  fun first e hfirst => h first e (hfirst.trans hdone)

theorem refines_concat_iff {e : ε} : Refines step astep Rel s a (trace ++ [e]) ↔
    Refines step astep Rel s a trace ∧
      ∃ t, Run step Always s (trace ++ [e]) t ∧ Rel t ((trace ++ [e]).foldl astep a) := by
  constructor
  · intro h
    exact ⟨h.of_prefix (List.prefix_append _ _), h _ List.prefix_rfl⟩
  · rintro ⟨h, hlast⟩ done hdone
    rcases List.prefix_concat_iff.mp hdone with rfl | hdone
    · exact hlast
    · exact h done hdone

-- Allowed steps can be taken, and lead from a state that the invariant couples to the abstract
-- one to another.
theorem Meets.run (h : Meets step Allowed s trace) (hstart : Inv s a)
    (hstep : ∀ {t : σ} {b : τ} {e : ε}, Inv t b → Allowed t e →
      ∃ u, step t e = some u ∧ Inv u (astep b e)) :
    ∃ t, Run step Always s trace t ∧ Inv t (trace.foldl astep a) := by
  induction trace using List.reverseRecOn with
  | nil => exact ⟨s, .start, hstart⟩
  | append_singleton trace e ih =>
      obtain ⟨t, hrun, hinv⟩ := ih (h.of_prefix (List.prefix_append _ _))
      obtain ⟨u, hu, hinv⟩ := hstep hinv (h trace e List.prefix_rfl t hrun)
      refine ⟨u, .next hrun trivial hu, ?_⟩
      rwa [List.foldl_append]

theorem Meets.refines (h : Meets step Allowed s trace) (hstart : Inv s a)
    (hrel : ∀ {t : σ} {b : τ}, Inv t b → Rel t b)
    (hstep : ∀ {t : σ} {b : τ} {e : ε}, Inv t b → Allowed t e →
      ∃ u, step t e = some u ∧ Inv u (astep b e)) : Refines step astep Rel s a trace := by
  intro done hdone
  obtain ⟨t, hrun, hinv⟩ := (h.of_prefix hdone).run hstart hstep
  exact ⟨t, hrun, hrel hinv⟩

-- Where a step that is not allowed always leads away from the abstract machine, a trace follows
-- that exactly if all of its steps are allowed.
theorem refines_iff_meets (hstart : Inv s a) (hrel : ∀ {t : σ} {b : τ}, Inv t b → Rel t b)
    (hstep : ∀ {t : σ} {b : τ} {e : ε}, Inv t b → Allowed t e →
      ∃ u, step t e = some u ∧ Inv u (astep b e))
    (hbreak : ∀ {t u : σ} {b : τ} {e : ε}, Inv t b → ¬Allowed t e → step t e = some u →
      ¬Rel u (astep b e)) :
    Refines step astep Rel s a trace ↔ Meets step Allowed s trace := by
  refine ⟨fun h => ?_, fun h => h.refines hstart hrel hstep⟩
  induction trace using List.reverseRecOn with
  | nil =>
      intro done e hdone
      exact absurd (List.prefix_nil.mp hdone) (by simp)
  | append_singleton trace last ih =>
      obtain ⟨hbefore, u, hrun, hu⟩ := refines_concat_iff.mp h
      have hmeets := ih hbefore
      intro done e hdone t ht
      rcases List.prefix_concat_iff.mp hdone with hsame | hdone
      · obtain ⟨rfl, hlast⟩ := List.append_inj' hsame rfl
        obtain rfl := List.singleton_inj.mp hlast
        obtain ⟨t', hrun', hinv⟩ := hmeets.run hstart hstep
        obtain rfl := ht.unique hrun'
        obtain ⟨t'', hrun'', -, hnext⟩ := run_concat_iff.mp hrun
        obtain rfl := ht.unique hrun''
        by_contra hnot
        rw [List.foldl_append] at hu
        exact hbreak hinv hnot hnext hu
      · exact hmeets done e hdone t ht

end RoboCrisp.Transition
