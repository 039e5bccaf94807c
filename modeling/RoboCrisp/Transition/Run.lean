import Mathlib.Data.List.Basic

namespace RoboCrisp.Transition

variable {σ ε α : Type} {step : σ → ε → Option σ} {Allowed : σ → ε → Prop} {s t : σ}
  {trace : List ε}

-- What grows by one element at a time goes on having what each of them has.
theorem forall_mem_concat {p : α → Prop} {l : List α} {a : α} (hl : ∀ x ∈ l, p x) (ha : p a) :
    ∀ x ∈ l ++ [a], p x := by
  rw [List.forall_mem_append, List.forall_mem_singleton]
  exact ⟨hl, ha⟩

-- What is taken out of a queue is missed by nothing else.
theorem mem_eraseIdx_of_ne {l : List α} {i : Nat} {a b : α} (hget : l[i]? = some a) (hne : b ≠ a)
    (hmem : b ∈ l) : b ∈ l.eraseIdx i := by
  obtain ⟨j, hj⟩ := List.mem_iff_getElem?.mp hmem
  refine List.mem_eraseIdx_iff_getElem?.mpr ⟨j, fun hsame => ?_, hj⟩
  rw [hsame, hget] at hj
  exact hne (Option.some.inj hj).symm

-- The steps of `trace`, one after the other, each of them allowed in the state that it is
-- taken in.
inductive Run (step : σ → ε → Option σ) (Allowed : σ → ε → Prop) (s : σ) : List ε → σ → Prop
  | start : Run step Allowed s [] s
  | next {trace : List ε} {t u : σ} {e : ε} (hrun : Run step Allowed s trace t)
      (hallowed : Allowed t e) (hstep : step t e = some u) : Run step Allowed s (trace ++ [e]) u

def Always : σ → ε → Prop := fun _ _ => True

instance (s : σ) (e : ε) : Decidable (Always s e) := inferInstanceAs (Decidable True)

-- What holds at the start and is kept by each allowed step holds in every state of a run.
theorem Run.invariant {Inv : σ → Prop} (hrun : Run step Allowed s trace t) (hstart : Inv s)
    (hstep : ∀ {t u : σ} {e : ε}, Inv t → Allowed t e → step t e = some u → Inv u) : Inv t := by
  induction hrun with
  | start => exact hstart
  | next _ hallowed hnext ih => exact hstep ih hallowed hnext

-- What no step changes is the same in every state of a run.
theorem Run.constant {f : σ → α} (hrun : Run step Allowed s trace t)
    (hstep : ∀ {t u : σ} {e : ε}, step t e = some u → f u = f t) : f t = f s := by
  induction hrun with
  | start => rfl
  | next _ _ hnext ih => rw [hstep hnext, ih]

theorem Run.cons {e : ε} {u : σ} (hallowed : Allowed s e) (hstep : step s e = some t)
    (hrun : Run step Allowed t trace u) : Run step Allowed s (e :: trace) u := by
  induction hrun with
  | start => exact .next .start hallowed hstep
  | next _ hlater hnext ih => exact .next ih hlater hnext

theorem Run.always (hrun : Run step Allowed s trace t) : Run step Always s trace t := by
  induction hrun with
  | start => exact .start
  | next _ _ hnext ih => exact .next ih trivial hnext

-- A condition that an invariant and another one make sure of.
theorem Run.weaken {Inv : σ → Prop} {Ok : σ → ε → Prop} (hrun : Run step Allowed s trace t)
    (hstart : Inv s) (hkeep : ∀ {t u : σ} {e : ε}, Inv t → Allowed t e → step t e = some u → Inv u)
    (hok : ∀ {t : σ} {e : ε}, Inv t → Allowed t e → Ok t e) : Run step Ok s trace t := by
  induction hrun with
  | start => exact .start
  | next hrun hallowed hnext ih => exact .next ih (hok (hrun.invariant hstart hkeep) hallowed) hnext

theorem Run.eq_of_nil (hrun : Run step Allowed s [] t) : t = s := by
  generalize hnil : ([] : List ε) = trace at hrun
  cases hrun with
  | start => rfl
  | next => exact absurd hnil.symm (by simp)

theorem run_concat_iff {e : ε} {u : σ} : Run step Allowed s (trace ++ [e]) u ↔
    ∃ t, Run step Allowed s trace t ∧ Allowed t e ∧ step t e = some u := by
  constructor
  · intro hrun
    generalize hlast : trace ++ [e] = steps at hrun
    cases hrun with
    | start => exact absurd hlast (by simp)
    | next hrun hallowed hnext =>
        obtain ⟨htrace, he⟩ := List.append_inj' hlast rfl
        obtain rfl := htrace
        obtain rfl := List.singleton_inj.mp he
        exact ⟨_, hrun, hallowed, hnext⟩
  · rintro ⟨t, hrun, hallowed, hnext⟩
    exact .next hrun hallowed hnext

-- Each step has one outcome, and so has each run.
theorem Run.unique {u : σ} (hrun : Run step Always s trace t) (hother : Run step Always s trace u) :
    u = t := by
  induction hrun generalizing u with
  | start => exact hother.eq_of_nil
  | next _ _ hnext ih =>
      obtain ⟨middle, hrun, -, hlast⟩ := run_concat_iff.mp hother
      obtain rfl := ih hrun
      exact Option.some.inj (hlast.symm.trans hnext)

-- A step more is allowed where the run has got to, which is the same for every `Allowed`.
theorem Run.next_iff {e : ε} {u : σ} (hrun : Run step Always s trace t) (hstep : step t e = some u) :
    Run step Allowed s (trace ++ [e]) u ↔ Run step Allowed s trace t ∧ Allowed t e := by
  rw [run_concat_iff]
  constructor
  · rintro ⟨middle, hbefore, hallowed, -⟩
    obtain rfl := hrun.unique hbefore.always
    exact ⟨hbefore, hallowed⟩
  · rintro ⟨hbefore, hallowed⟩
    exact ⟨t, hbefore, hallowed, hstep⟩

theorem Run.of_prefix {done : List ε} (hrun : Run step Allowed s trace t) (hdone : done <+: trace) :
    ∃ u, Run step Allowed s done u := by
  induction hrun with
  | start =>
      obtain rfl := List.prefix_nil.mp hdone
      exact ⟨_, .start⟩
  | next hrun hallowed hnext ih =>
      rcases List.prefix_concat_iff.mp hdone with rfl | hdone
      · exact ⟨_, .next hrun hallowed hnext⟩
      · exact ih hdone

-- `Good` holds in every state that the steps of `trace` lead through.
def Throughout (Good : σ → Prop) (step : σ → ε → Option σ) (s : σ) (trace : List ε) : Prop :=
  ∀ {done : List ε} {t : σ}, done <+: trace → Run step Always s done t → Good t

theorem Run.throughout {Good Inv : σ → Prop} (hrun : Run step Allowed s trace t) (hstart : Inv s)
    (hgood : ∀ {t : σ}, Inv t → Good t)
    (hkeep : ∀ {t u : σ} {e : ε}, Inv t → Allowed t e → step t e = some u → Inv u) :
    Throughout Good step s trace := by
  induction hrun with
  | start =>
      intro done v hdone hv
      obtain rfl := List.prefix_nil.mp hdone
      rw [hv.eq_of_nil]
      exact hgood hstart
  | next hrun hallowed hnext ih =>
      have hall := Run.next hrun hallowed hnext
      intro done v hdone hv
      rcases List.prefix_concat_iff.mp hdone with rfl | hdone
      · rw [hall.always.unique hv]
        exact hgood (hall.invariant hstart hkeep)
      · exact ih hdone hv

-- Where a step that is not allowed always breaks `Good`, and those that are allowed never do,
-- a run is good throughout exactly when all of its steps are allowed.
theorem Run.throughout_iff {Good Inv : σ → Prop} (hrun : Run step Always s trace t) (hstart : Inv s)
    (hgood : ∀ {t : σ}, Inv t → Good t)
    (hkeep : ∀ {t u : σ} {e : ε}, Inv t → Allowed t e → step t e = some u → Inv u)
    (hbreak : ∀ {t u : σ} {e : ε}, Inv t → ¬Allowed t e → step t e = some u → ¬Good u) :
    Throughout Good step s trace ↔ Run step Allowed s trace t := by
  refine ⟨fun hthroughout => ?_, fun hall => hall.throughout hstart hgood hkeep⟩
  induction hrun with
  | start => exact .start
  | @next trace t u e hrun _ hnext ih =>
      have hbefore := ih fun hdone => hthroughout (hdone.trans (List.prefix_append _ _))
      by_cases hallowed : Allowed t e
      · exact .next hbefore hallowed hnext
      · have hlast := hthroughout List.prefix_rfl (.next hrun trivial hnext)
        exact absurd hlast (hbreak (hbefore.invariant hstart hkeep) hallowed hnext)

-- `Ok` holds of each step of `trace` in the state that it is taken in, whether or not it has a
-- result there.
def Along (Ok : σ → ε → Prop) (step : σ → ε → Option σ) (s : σ) (trace : List ε) : Prop :=
  ∀ {done : List ε} {e : ε} {t : σ}, done ++ [e] <+: trace → Run step Always s done t → Ok t e

theorem Along.invariant {Inv : σ → Prop} {Ok : σ → ε → Prop} {done : List ε}
    (h : Along Ok step s trace) (hstart : Inv s)
    (hkeep : ∀ {t u : σ} {e : ε}, Inv t → Ok t e → step t e = some u → Inv u)
    (hdone : done <+: trace) (hrun : Run step Always s done t) : Inv t := by
  induction hrun with
  | start => exact hstart
  | next hrun _ hnext ih =>
      exact hkeep (ih ((List.prefix_append _ _).trans hdone)) (h hdone hrun) hnext

-- Two conditions that mean the same under an invariant mean the same along a run, when the steps
-- that meet one of them keep the invariant.
theorem along_iff {Inv : σ → Prop} {Ok Ok' : σ → ε → Prop} (hstart : Inv s)
    (hkeep : ∀ {t u : σ} {e : ε}, Inv t → Ok t e → step t e = some u → Inv u)
    (hiff : ∀ {t : σ} {e : ε}, Inv t → (Ok' t e ↔ Ok t e)) :
    Along Ok' step s trace ↔ Along Ok step s trace := by
  constructor
  · intro h done e t hdone hrun
    have hinv := h.invariant hstart (fun hinv hok => hkeep hinv ((hiff hinv).mp hok))
      ((List.prefix_append _ _).trans hdone) hrun
    exact (hiff hinv).mp (h hdone hrun)
  · intro h done e t hdone hrun
    have hinv := h.invariant hstart hkeep ((List.prefix_append _ _).trans hdone) hrun
    exact (hiff hinv).mpr (h hdone hrun)

theorem Run.append {more : List ε} {u : σ} (hrun : Run step Allowed s trace t)
    (hmore : Run step Allowed t more u) : Run step Allowed s (trace ++ more) u := by
  induction hmore with
  | start => rwa [List.append_nil]
  | next _ hallowed hnext ih =>
      rw [← List.append_assoc]
      exact .next ih hallowed hnext

-- A step that is looked at before it is taken.
def guarded (step : σ → ε → Option σ) (Allowed : σ → ε → Prop) [∀ s e, Decidable (Allowed s e)]
    (s : σ) (e : ε) : Option σ := if Allowed s e then step s e else none

theorem Run.of_foldlM [∀ s e, Decidable (Allowed s e)]
    (h : trace.foldlM (guarded step Allowed) s = some t) : Run step Allowed s trace t := by
  induction trace generalizing s with
  | nil =>
      obtain rfl := Option.some.inj h
      exact .start
  | cons e trace ih =>
      rw [List.foldlM_cons] at h
      obtain ⟨middle, hmiddle, h⟩ := Option.bind_eq_some_iff.mp h
      obtain ⟨hallowed, hstep⟩ := Option.ite_none_right_eq_some.mp hmiddle
      exact .cons hallowed hstep (ih h)

end RoboCrisp.Transition
