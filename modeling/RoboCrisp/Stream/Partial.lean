import Mathlib.Data.List.Forall2
import Mathlib.Data.Option.Basic

namespace RoboCrisp.Stream

-- Steps on a state that may have no result at all.

variable {σ α β : Type} {state : σ}

theorem bind_apply (first : StateT σ Option α) (next : α → StateT σ Option β) (state : σ) :
    (first >>= next) state = (first state).bind fun p => next p.1 p.2 := rfl

theorem pure_apply (value : α) (state : σ) :
    (Pure.pure value : StateT σ Option α) state = some (value, state) := rfl

theorem get_bind_apply (next : σ → StateT σ Option β) (state : σ) :
    (get >>= next) state = next state state := rfl

theorem bind_eq_some_iff {first : StateT σ Option α} {next : α → StateT σ Option β}
    {result : β × σ} :
    (first >>= next) state = some result ↔
      ∃ value middle, first state = some (value, middle) ∧ next value middle = some result := by
  rw [bind_apply, Option.bind_eq_some_iff]
  constructor
  · rintro ⟨⟨value, middle⟩, hfirst, hnext⟩
    exact ⟨value, middle, hfirst, hnext⟩
  · rintro ⟨value, middle, hfirst, hnext⟩
    exact ⟨(value, middle), hfirst, hnext⟩

theorem pure_eq_some_iff {value : α} {result : α × σ} :
    (Pure.pure value : StateT σ Option α) state = some result ↔ (value, state) = result :=
  Option.some_inj

theorem lift_eq_some_iff {value : Option α} {result : α × σ} :
    (StateT.lift value : StateT σ Option α) state = some result ↔
      value = some result.1 ∧ state = result.2 := by
  obtain ⟨a, b⟩ := result
  cases value with
  | none =>
      change (none : Option (α × σ)) = some (a, b) ↔ none = some a ∧ state = b
      simp
  | some value =>
      change some (value, state) = some (a, b) ↔ some value = some a ∧ state = b
      simp only [Option.some.injEq, Prod.mk.injEq]

section Grows

-- No result of the step has less of `size` than it began with.
def Grows (size : σ → Nat) (step : StateT σ Option α) : Prop :=
  ∀ state value state', step state = some (value, state') → size state ≤ size state'

variable {size : σ → Nat}

theorem Grows.pure {value : α} : Grows size (Pure.pure value : StateT σ Option α) := by
  intro state value' state' h
  obtain ⟨-, rfl⟩ := Prod.mk.inj (pure_eq_some_iff.mp h)
  exact Nat.le_refl _

theorem Grows.lift {value : Option α} : Grows size (StateT.lift value : StateT σ Option α) := by
  intro state value' state' h
  obtain ⟨-, rfl⟩ := lift_eq_some_iff.mp h
  exact Nat.le_refl _

theorem Grows.bind {first : StateT σ Option α} {next : α → StateT σ Option β}
    (hfirst : Grows size first) (hnext : ∀ value, Grows size (next value)) :
    Grows size (first >>= next) := by
  intro state result state' h
  obtain ⟨value, middle, hmiddle, hlast⟩ := bind_eq_some_iff.mp h
  exact Nat.le_trans (hfirst _ _ _ hmiddle) (hnext value _ _ _ hlast)

theorem Grows.ite {c : Prop} [Decidable c] {first second : StateT σ Option α}
    (hfirst : Grows size first) (hsecond : Grows size second) :
    Grows size (if c then first else second) := by
  split
  · exact hfirst
  · exact hsecond

end Grows

-- The loop rule: when every turn keeps `inv` and has a result, so has the loop.
theorem foldlM_inv {step : σ → α → Option σ} {inv : σ → Prop} {items : List α}
    (hstep : ∀ state, inv state → ∀ item ∈ items, ∃ state', step state item = some state' ∧
      inv state') (h : inv state) :
    ∃ last, items.foldlM step state = some last ∧ inv last := by
  induction items generalizing state with
  | nil => exact ⟨state, rfl, h⟩
  | cons item items ih =>
      obtain ⟨middle, hmiddle, hinv⟩ := hstep state h item List.mem_cons_self
      obtain ⟨last, hlast, hresult⟩ := ih
        (fun state h item hitem => hstep state h item (List.mem_cons_of_mem _ hitem)) hinv
      refine ⟨last, ?_, hresult⟩
      rw [List.foldlM_cons, hmiddle]
      exact hlast

-- A loop that ends at the first test that fails.
theorem foldlM_all_iff {test : α → Option Bool} {items : List α} {same : Bool} :
    items.foldlM (fun same item => if same then test item else some false) same = some true ↔
      same = true ∧ ∀ item ∈ items, test item = some true := by
  induction items generalizing same with
  | nil => simp
  | cons item items ih =>
      rw [List.foldlM_cons]
      cases same with
      | false =>
          rw [if_neg Bool.false_ne_true, Option.bind_eq_bind, Option.bind_some, ih]
          simp
      | true =>
          rw [if_pos rfl, Option.bind_eq_bind, Option.bind_eq_some_iff]
          constructor
          · rintro ⟨next, htest, hrest⟩
            obtain ⟨hnext, hrest⟩ := ih.mp hrest
            refine ⟨rfl, fun other hother => ?_⟩
            rcases List.mem_cons.mp hother with hother | hother
            · rw [hother, htest, hnext]
            · exact hrest other hother
          · rintro ⟨-, hall⟩
            exact ⟨true, hall item List.mem_cons_self,
              ih.mpr ⟨rfl, fun other hother => hall other (List.mem_cons_of_mem _ hother)⟩⟩

-- A loop all of whose tests have a result.
theorem foldlM_all_eq {test : α → Option Bool} {pass : α → Bool} {items : List α} {same : Bool}
    (h : ∀ item ∈ items, test item = some (pass item)) :
    items.foldlM (fun same item => if same then test item else some false) same =
      some (same && items.all pass) := by
  induction items generalizing same with
  | nil => simp
  | cons item items ih =>
      rw [List.forall_mem_cons] at h
      rw [List.foldlM_cons]
      cases same with
      | false => simp [ih h.2]
      | true => simp [h.1, ih h.2]

section Lockstep

-- Two runs that have a result at the same time, and related ones.

variable {α' β' τ : Type} {R : α → α' → Prop} {S : β → β' → Prop}

theorem rel_bind {first : Option α} {first' : Option α'} {next : α → Option β}
    {next' : α' → Option β'} (hfirst : Option.Rel R first first')
    (hnext : ∀ a a', R a a' → Option.Rel S (next a) (next' a')) :
    Option.Rel S (first >>= next) (first' >>= next') := by
  cases hfirst with
  | none => exact .none
  | some h => exact hnext _ _ h

theorem rel_foldlM {R : σ → τ → Prop} {step : σ → α → Option σ} {step' : τ → α → Option τ}
    {items : List α} (hstep : ∀ s t, R s t → ∀ item ∈ items, Option.Rel R (step s item) (step' t item))
    {s : σ} {t : τ} (h : R s t) : Option.Rel R (items.foldlM step s) (items.foldlM step' t) := by
  induction items generalizing s t with
  | nil => exact .some h
  | cons item items ih =>
      rw [List.foldlM_cons, List.foldlM_cons]
      exact rel_bind (hstep s t h item List.mem_cons_self) fun s' t' h' =>
        ih (fun s t h item hitem => hstep s t h item (List.mem_cons_of_mem _ hitem)) h'

theorem rel_of_eq {first second : Option α} (h : first = second) :
    Option.Rel (· = ·) first second := by
  subst h
  cases first with
  | none => exact .none
  | some a => exact .some rfl

theorem exists_forall₂ {items : List α} (h : ∀ a ∈ items, ∃ a', R a a') :
    ∃ items', List.Forall₂ R items items' := by
  induction items with
  | nil => exact ⟨[], .nil⟩
  | cons a items ih =>
      obtain ⟨a', ha'⟩ := h a List.mem_cons_self
      obtain ⟨items', hitems'⟩ := ih fun b hb => h b (List.mem_cons_of_mem _ hb)
      exact ⟨a' :: items', .cons ha' hitems'⟩

end Lockstep

end RoboCrisp.Stream
