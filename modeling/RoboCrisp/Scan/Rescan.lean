import RoboCrisp.Scan.InPlace

namespace RoboCrisp.Scan

variable {α ω ε ε' : Type} {check : α → Option α → Call ω ε (Option Nat)}
  {check' : α → Option α → Call ω ε' (Option Nat)} {arg : α} {args front kept left : List α}
  {effects : List ω} {raised : Except ε Unit}

-- A list is scanned in one way.
theorem Scanned.unique {kept' left' : List α} {effects' : List ω} {raised' : Except ε Unit}
    (h : Scanned check args effects raised kept left)
    (h' : Scanned check args effects' raised' kept' left') :
    effects = effects' ∧ raised = raised' ∧ kept = kept' ∧ left = left' := by
  induction h generalizing effects' raised' kept' left' with
  | done =>
      cases h'
      exact ⟨rfl, rfl, rfl, rfl⟩
  | stop hvalue =>
      cases h' with
      | stop => exact ⟨rfl, rfl, rfl, rfl⟩
      | fail hvalue' => exact absurd (hvalue.symm.trans hvalue') (by simp)
      | keep hvalue' => exact absurd (hvalue.symm.trans hvalue') (by simp)
      | delete hvalue' => exact absurd (hvalue.symm.trans hvalue') (by simp)
  | fail hvalue =>
      cases h' with
      | stop hvalue' => exact absurd (hvalue.symm.trans hvalue') (by simp)
      | fail hvalue' =>
          rw [hvalue] at hvalue'
          obtain rfl := Except.error.inj hvalue'
          exact ⟨rfl, rfl, rfl, rfl⟩
      | keep hvalue' => exact absurd (hvalue.symm.trans hvalue') (by simp)
      | delete hvalue' => exact absurd (hvalue.symm.trans hvalue') (by simp)
  | keep hvalue _ ih =>
      cases h' with
      | stop hvalue' => exact absurd (hvalue.symm.trans hvalue') (by simp)
      | fail hvalue' => exact absurd (hvalue.symm.trans hvalue') (by simp)
      | keep hvalue' hrest' =>
          obtain ⟨rfl, rfl, rfl, rfl⟩ := ih hrest'
          exact ⟨rfl, rfl, rfl, rfl⟩
      | delete hvalue' => exact absurd (hvalue.symm.trans hvalue') (by simp)
  | @delete arg args kept left effects raised n hvalue _ ih =>
      cases h' with
      | stop hvalue' => exact absurd (hvalue.symm.trans hvalue') (by simp)
      | fail hvalue' => exact absurd (hvalue.symm.trans hvalue') (by simp)
      | keep hvalue' => exact absurd (hvalue.symm.trans hvalue') (by simp)
      | @delete _ _ _ _ _ _ m hvalue' hrest' =>
          rw [hvalue] at hvalue'
          obtain rfl : n = m := by simpa using hvalue'
          obtain ⟨rfl, rfl, rfl, rfl⟩ := ih hrest'
          exact ⟨rfl, rfl, rfl, rfl⟩

-- What the loop over a vector comes to.
theorem Scanned.loop_eq (h : Scanned check args effects raised kept left) :
    loop check (args.length + 1) args 0 = some ⟨effects, raised, kept ++ left, kept.length⟩ := by
  obtain ⟨effects', raised', kept', left', hscanned, hloop⟩ :=
    exists_scanned check (Nat.lt_succ_self args.length) []
  obtain ⟨rfl, rfl, rfl, rfl⟩ := h.unique hscanned
  simpa using hloop

theorem exists_scanned_of_loop {outcome : Outcome ω ε α}
    (h : loop check (args.length + 1) args 0 = some outcome) :
    ∃ kept left, Scanned check args outcome.effects outcome.raised kept left ∧
      outcome.arguments = kept ++ left := by
  obtain ⟨effects, raised, kept, left, hscanned, -⟩ :=
    exists_scanned check (Nat.lt_succ_self args.length) []
  obtain rfl := Option.some.inj (hscanned.loop_eq.symm.trans h)
  exact ⟨kept, left, hscanned, rfl⟩

-- What a check says of an element, whatever comes after it.
def Passes (check : α → Option α → Call ω ε (Option Nat)) (arg : α) : Prop :=
  ∀ next, check arg next = ⟨[], .ok (some 0)⟩

def Stops (check : α → Option α → Call ω ε (Option Nat)) (arg : α) : Prop :=
  ∀ next, check arg next = ⟨[], .ok none⟩

def Takes (check : α → Option α → Call ω ε (Option Nat)) (effects : List ω) (arg : α) : Prop :=
  ∀ next, check arg next = ⟨effects, .ok (some 1)⟩

theorem Scanned.stopped (hstops : Stops check arg) :
    Scanned check (arg :: args) [] (.ok ()) [] (arg :: args) := by
  have hscanned : Scanned check (arg :: args) _ (.ok ()) [] (arg :: args) :=
    .stop (congrArg Call.value (hstops args.head?))
  rwa [hstops] at hscanned

theorem Scanned.passes (hpasses : ∀ arg ∈ front, Passes check arg)
    (h : Scanned check args effects raised kept left) :
    Scanned check (front ++ args) effects raised (front ++ kept) left := by
  induction front with
  | nil => exact h
  | cons arg front ih =>
      have hpass := hpasses arg List.mem_cons_self (front ++ args).head?
      have hscanned : Scanned check (arg :: (front ++ args)) _ raised (arg :: (front ++ kept)) left :=
        .keep (congrArg Call.value hpass) (ih fun arg hmem => hpasses arg (List.mem_cons_of_mem _ hmem))
      rwa [hpass] at hscanned

theorem Scanned.take (taken : List ω) (htakes : Takes check taken arg)
    (h : Scanned check args effects raised kept left) :
    Scanned check (arg :: args) (taken ++ effects) raised kept left := by
  have hscanned : Scanned check (arg :: args) _ raised kept left :=
    .delete (n := 0) (congrArg Call.value (htakes args.head?)) h
  rwa [htakes] at hscanned

theorem Scanned.takes {β : Type} (word : β → α) (taken : β → List ω) {bs : List β}
    (htakes : ∀ b ∈ bs, Takes check (taken b) (word b))
    (h : Scanned check args effects raised kept left) :
    Scanned check (bs.map word ++ args) (bs.flatMap taken ++ effects) raised kept left := by
  induction bs with
  | nil => exact h
  | cons b bs ih =>
      rw [List.flatMap_cons, List.append_assoc]
      exact .take _ (htakes b List.mem_cons_self)
        (ih fun b hmem => htakes b (List.mem_cons_of_mem _ hmem))

-- A check that passes over an element, or stops at it, because of that element alone.
structure Local (check : α → Option α → Call ω ε (Option Nat)) : Prop where
  passes : ∀ arg next, (check arg next).value = .ok (some 0) → Passes check arg
  stops : ∀ arg next, (check arg next).value = .ok none → Stops check arg

-- Nothing is left, or it begins with an element that stops a scan.
inductive Ends (check : α → Option α → Call ω ε (Option Nat)) : List α → Prop
  | done : Ends check []
  | stop {arg : α} {args : List α} (hstops : Stops check arg) : Ends check (arg :: args)

theorem Scanned.passes_kept (hlocal : Local check) (h : Scanned check args effects raised kept left) :
    ∀ arg ∈ kept, Passes check arg := by
  induction h with
  | done => exact fun _ hmem => absurd hmem List.not_mem_nil
  | stop => exact fun _ hmem => absurd hmem List.not_mem_nil
  | fail => exact fun _ hmem => absurd hmem List.not_mem_nil
  | keep hvalue _ ih => exact List.forall_mem_cons.mpr ⟨hlocal.passes _ _ hvalue, ih⟩
  | delete _ _ ih => exact ih

theorem Scanned.ends_left (hlocal : Local check)
    (h : Scanned check args effects (.ok ()) kept left) : Ends check left := by
  generalize hraised : Except.ok () = raised at h
  induction h with
  | done => exact .done
  | stop hvalue => exact .stop (hlocal.stops _ _ hvalue)
  | fail => contradiction
  | keep _ _ ih => exact ih hraised
  | delete _ _ ih => exact ih hraised

theorem Scanned.subset (h : Scanned check args effects raised kept left) : kept ++ left ⊆ args := by
  induction h with
  | done => exact List.Subset.refl _
  | stop => exact List.Subset.refl _
  | fail => exact List.Subset.refl _
  | keep _ _ ih => exact List.cons_subset_cons _ ih
  | delete _ _ ih =>
      exact fun arg hmem => List.mem_cons_of_mem _ (List.drop_subset _ _ (ih hmem))

theorem Ends.scanned (h : Ends check left) : Scanned check left [] (.ok ()) [] left := by
  cases h with
  | done => exact .done
  | stop hstops => exact .stopped hstops

-- What a scan has left is passed over by the next one.
theorem scanned_of_ends (hkept : ∀ arg ∈ kept, Passes check arg) (hleft : Ends check left) :
    Scanned check (kept ++ left) [] (.ok ()) kept left := by
  have hscanned := hleft.scanned.passes hkept
  rwa [List.append_nil] at hscanned

-- All of it is said of an element by a check that agrees.
theorem Call.Agrees.eq_of_ok {β : Type} {call : Call ω ε β} {call' : Call ω ε' β} {b : β}
    (h : Call.Agrees call call') (hcall : call = ⟨effects, .ok b⟩) : call' = ⟨effects, .ok b⟩ := by
  obtain ⟨effects', value'⟩ := call'
  obtain ⟨heffects, hvalue⟩ := h
  subst hcall
  obtain rfl : effects' = effects := heffects
  cases value' with
  | ok b' =>
      obtain rfl : b' = b := Option.some.inj hvalue
      rfl
  | error e => contradiction

theorem Call.Agrees.symm {β : Type} {call : Call ω ε β} {call' : Call ω ε' β}
    (h : Call.Agrees call call') : Call.Agrees call' call := ⟨h.effects.symm, h.value.symm⟩

section Agreement

variable (hcheck : ∀ arg next, (check arg next).Agrees (check' arg next))

include hcheck

theorem Passes.agrees (h : Passes check arg) : Passes check' arg := fun next =>
  (hcheck arg next).eq_of_ok (h next)

theorem Stops.agrees (h : Stops check arg) : Stops check' arg := fun next =>
  (hcheck arg next).eq_of_ok (h next)

theorem Takes.agrees (h : Takes check effects arg) : Takes check' effects arg := fun next =>
  (hcheck arg next).eq_of_ok (h next)

theorem Local.agrees (h : Local check) : Local check' := by
  have hvalue : ∀ arg next count, (check' arg next).value = .ok count →
      (check arg next).value = .ok count := by
    intro arg next count hcount
    have hagrees := (hcheck arg next).value
    rw [hcount] at hagrees
    cases hcall : (check arg next).value with
    | ok count' =>
        rw [hcall] at hagrees
        exact congrArg Except.ok (Option.some.inj hagrees).symm
    | error e =>
        rw [hcall] at hagrees
        contradiction
  exact
    { passes := fun arg next h' => (h.passes arg next (hvalue arg next _ h')).agrees hcheck
      stops := fun arg next h' => (h.stops arg next (hvalue arg next _ h')).agrees hcheck }

end Agreement

end RoboCrisp.Scan
