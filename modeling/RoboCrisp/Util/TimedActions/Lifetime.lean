import Mathlib.Data.List.Basic
import RoboCrisp.Util.TimedActions

namespace RoboCrisp.Util

open RoboCrisp.Transition

namespace TimedActions

variable {F : Type} {s s' : TimedActions F} {i id x : Nat} {ok : Bool} {action : TimedAction F}
  {e : ActionEvent F} {h : ActionHandler}

def Owns (s : TimedActions F) (id : Nat) : Prop := ∃ action, s.m_actions id = some action

theorem not_owns_iff : ¬s.Owns id ↔ s.m_actions id = none := by
  unfold Owns
  cases s.m_actions id <;> simp

theorem mem_aborted : h ∈ aborted id action ↔ action.waiting = true ∧ h = .expiry id false := by
  unfold aborted
  split
  · rename_i hwaiting
    simp [hwaiting]
  · rename_i hwaiting
    simp [hwaiting]

theorem owns_store : (s.store id action).Owns x ↔ x = id ∨ s.Owns x := by
  unfold Owns store
  by_cases hx : x = id
  · subst hx
    simp
  · simp [hx]

theorem owns_abort : (s.abort id action).Owns x ↔ x = id ∨ s.Owns x := owns_store

theorem owns_destroy : (s.destroy id action).Owns x ↔ x ≠ id ∧ s.Owns x := by
  unfold Owns destroy
  by_cases hx : x = id
  · subst hx
    simp
  · simp [hx]

-- The object is there for whatever the io_service has got to call for it, and for the rest of each
-- handler that is being called.
structure Sound (s : TimedActions F) : Prop where
  alive : ∀ id ok, .expiry id ok ∈ s.posted → s.Owns id
  running : ∀ id ∈ s.running, s.Owns id

-- An action goes without anything that is still to be called for it, or that is being called.
def DestroysQuiet (s : TimedActions F) (id : Nat) : Prop :=
  ∀ action, s.m_actions id = some action → action.inserted = true →
    action.waiting = false ∧ id ∉ s.running ∧ ∀ ok, .expiry id ok ∉ s.posted

-- A step that an action goes in, if it does, is a quiet one.
def Quiet (s : TimedActions F) : ActionEvent F → Prop
  | .remove id => s.DestroysQuiet id
  | .handler i => ∀ id, s.posted[i]? = some (.removal id) → s.DestroysQuiet id
  | _ => True

-- Where nothing goes, what is there for the handlers is there for them afterwards.
theorem Sound.grow (hs : s.Sound) (howns : ∀ id, s.Owns id → s'.Owns id)
    (hposted : ∀ id ok, .expiry id ok ∈ s'.posted → .expiry id ok ∈ s.posted ∨ s'.Owns id)
    (hrunning : ∀ id ∈ s'.running, id ∈ s.running ∨ s'.Owns id) : s'.Sound := by
  refine ⟨fun id ok hmem => ?_, fun id hid => ?_⟩
  · rcases hposted id ok hmem with hold | hnew
    · exact howns id (hs.alive id ok hold)
    · exact hnew
  · rcases hrunning id hid with hold | hnew
    · exact howns id (hs.running id hold)
    · exact hnew

theorem Sound.store (hs : s.Sound) (id : Nat) (action : TimedAction F) : (s.store id action).Sound :=
  hs.grow (fun _ hx => owns_store.mpr (.inr hx)) (fun _ _ hmem => .inl hmem) fun _ hx => .inl hx

theorem Sound.abort (hs : s.Sound) (id : Nat) (action : TimedAction F) : (s.abort id action).Sound := by
  refine hs.grow (fun x hx => owns_abort.mpr (.inr hx)) (fun x ok hmem => ?_) fun x hx => .inl hx
  rcases List.mem_append.mp hmem with hold | hnew
  · exact .inl hold
  · obtain ⟨-, heq⟩ := mem_aborted.mp hnew
    exact .inr (owns_abort.mpr (.inl (ActionHandler.expiry.inj heq).1))

theorem Sound.arm (hs : s.Sound) (id : Nat) (action : TimedAction F) (when : Int) :
    (s.arm id action when).Sound := (hs.abort id action).store _ _

theorem Sound.post (hs : s.Sound) (h : ActionHandler) (howns : ∀ id ok, h = .expiry id ok → s.Owns id) :
    (s.post h).Sound := by
  refine hs.grow (fun x hx => hx) (fun x ok hmem => ?_) fun x hx => .inl hx
  rcases List.mem_append.mp hmem with hold | hnew
  · exact .inl hold
  · exact .inr (howns x ok (List.mem_singleton.mp hnew).symm)

theorem Sound.pop (hs : s.Sound) (i : Nat) : { s with posted := s.posted.eraseIdx i }.Sound :=
  hs.grow (fun _ hx => hx) (fun _ _ hmem => .inl (List.mem_of_mem_eraseIdx hmem)) fun _ hx => .inl hx

theorem Sound.back (hs : s.Sound) (i : Nat) : { s with running := s.running.eraseIdx i }.Sound :=
  hs.grow (fun _ hx => hx) (fun _ _ hmem => .inl hmem) fun _ hx => .inl (List.mem_of_mem_eraseIdx hx)

theorem Sound.destroy (hs : s.Sound) (haction : s.m_actions id = some action)
    (hinserted : action.inserted = true) (hquiet : s.DestroysQuiet id) : (s.destroy id action).Sound := by
  obtain ⟨hwaiting, hrunning, hposted⟩ := hquiet action haction hinserted
  refine ⟨fun x ok hmem => ?_, fun x hx => ?_⟩
  · rcases List.mem_append.mp hmem with hold | hnew
    · refine owns_destroy.mpr ⟨?_, hs.alive x ok hold⟩
      rintro rfl
      exact hposted ok hold
    · rw [(mem_aborted.mp hnew).1] at hwaiting
      contradiction
  · refine owns_destroy.mpr ⟨?_, hs.running x hx⟩
    rintro rfl
    exact hrunning hx

-- What is left for an action that has gone is left for good.
theorem not_sound_destroy (haction : s.m_actions id = some action) (hquiet : ¬s.DestroysQuiet id) :
    ¬(s.destroy id action).Sound := by
  intro hs
  have hgone : ¬(s.destroy id action).Owns id := fun howns => (owns_destroy.mp howns).1 rfl
  refine hquiet fun other hother _ => ?_
  obtain rfl := Option.some.inj (haction.symm.trans hother)
  refine ⟨?_, fun hrunning => hgone (hs.running id hrunning), fun ok hmem => ?_⟩
  · by_contra hwaiting
    refine hgone (hs.alive id false (List.mem_append_right _ (mem_aborted.mpr ⟨?_, rfl⟩)))
    simpa using hwaiting
  · exact hgone (hs.alive id ok (List.mem_append_left _ hmem))

theorem destroysQuiet_of_missing (hmissing : s.Missing id) : s.DestroysQuiet id := by
  intro action haction hinserted
  rw [hmissing action haction] at hinserted
  contradiction

theorem destroysQuiet_pop (hposted : s.posted[i]? = some (.removal x)) :
    { s with posted := s.posted.eraseIdx i }.DestroysQuiet id ↔ s.DestroysQuiet id := by
  have hmem (ok : Bool) : .expiry id ok ∈ s.posted.eraseIdx i ↔ .expiry id ok ∈ s.posted :=
    ⟨List.mem_of_mem_eraseIdx, mem_eraseIdx_of_ne hposted (by simp)⟩
  simp only [DestroysQuiet, hmem]

theorem Sound.step (hs : s.Sound) (hquiet : s.Quiet e) (hstep : s.step e = some s') : s'.Sound := by
  cases step_steps hstep with
  | set_timer duration function =>
      exact Sound.arm (s := { s with next_id := s.next_id + 1 }) ⟨hs.alive, hs.running⟩ _ _ _
  | insert haction hinserted => exact hs.store _ _
  | reset when function haction => exact hs.arm _ _ when
  | cancel haction =>
      refine (hs.abort _ _).post _ fun id ok heq => ?_
      contradiction
  | remove haction hinserted => exact hs.destroy haction hinserted hquiet
  | remove_missing hmissing => exact hs
  | pass n => exact ⟨hs.alive, hs.running⟩
  | expire haction hwaiting hdue =>
      refine (hs.store _ _).post _ fun id ok heq => ?_
      exact owns_store.mpr (.inl (ActionHandler.expiry.inj heq).1.symm)
  | @call i id action hposted haction =>
      refine ⟨(hs.pop i).alive, fun x hx => ?_⟩
      rcases List.mem_append.mp hx with hold | hnew
      · exact hs.running x hold
      · obtain rfl := List.mem_singleton.mp hnew
        exact ⟨action, haction⟩
  | skip hposted haction => exact hs.pop _
  | removal hposted haction hinserted =>
      exact (hs.pop _).destroy haction hinserted ((destroysQuiet_pop hposted).mpr (hquiet _ hposted))
  | removal_missing hposted hmissing => exact hs.pop _
  | finish hrunning haction hlater => exact hs.back _
  | finish_late hrunning haction hlate =>
      refine ((hs.back _).abort _ _).post _ fun id ok heq => ?_
      contradiction

theorem not_sound_step (hquiet : ¬s.Quiet e) (hstep : s.step e = some s') : ¬s'.Sound := by
  cases step_steps hstep with
  | remove haction hinserted => exact not_sound_destroy haction hquiet
  | remove_missing hmissing => exact absurd (destroysQuiet_of_missing hmissing) hquiet
  | removal hposted haction hinserted =>
      refine not_sound_destroy haction fun hpop => hquiet fun id hother => ?_
      obtain rfl := ActionHandler.removal.inj (Option.some.inj (hposted.symm.trans hother))
      exact (destroysQuiet_pop hposted).mp hpop
  | removal_missing hposted hmissing =>
      refine absurd (fun id hother => ?_) hquiet
      obtain rfl := ActionHandler.removal.inj (Option.some.inj (hposted.symm.trans hother))
      exact destroysQuiet_of_missing hmissing
  | call hposted haction | skip hposted haction =>
      refine absurd (fun id hother => ?_) hquiet
      have heq := Option.some.inj (hposted.symm.trans hother)
      contradiction
  | set_timer | insert | reset | cancel | pass | expire | finish | finish_late => exact absurd trivial hquiet

theorem sound_start (now : Int) : (start now : TimedActions F).Sound := by
  refine ⟨fun id ok hmem => ?_, fun id hid => ?_⟩ <;> contradiction

-- What a user of the scheduler keeps to: an action isn't reset once it has been cancelled, which
-- its own expiry does as well, and remove() is left to cancel().
def Careful (s : TimedActions F) : ActionEvent F → Prop
  | .reset id _ _ => .removal id ∉ s.posted
  | .remove _ => False
  | _ => True

-- The io_service calls one handler after the other, in the order in which they have been posted.
def InTurn (s : TimedActions F) : ActionEvent F → Prop
  | .handler i => i = 0 ∧ s.running = []
  | _ => True

-- Addresses that have been given out.
structure Numbered (s : TimedActions F) : Prop where
  owned : ∀ id, s.Owns id → id < s.next_id
  removal : ∀ id, .removal id ∈ s.posted → id < s.next_id

theorem Numbered.grow (hn : s.Numbered) (hnext : s.next_id ≤ s'.next_id)
    (howns : ∀ id, s'.Owns id → s.Owns id ∨ id < s'.next_id)
    (hposted : ∀ id, .removal id ∈ s'.posted → .removal id ∈ s.posted ∨ s.Owns id) : s'.Numbered := by
  refine ⟨fun id hid => ?_, fun id hmem => ?_⟩
  · rcases howns id hid with hold | hnew
    · exact Nat.lt_of_lt_of_le (hn.owned id hold) hnext
    · exact hnew
  · rcases hposted id hmem with hold | hnew
    · exact Nat.lt_of_lt_of_le (hn.removal id hold) hnext
    · exact Nat.lt_of_lt_of_le (hn.owned id hnew) hnext

theorem Numbered.store (hn : s.Numbered) (hlt : id < s.next_id) : (s.store id action).Numbered := by
  refine hn.grow (Nat.le_refl _) (fun x hx => ?_) fun x hmem => .inl hmem
  rcases owns_store.mp hx with rfl | hx
  · exact .inr hlt
  · exact .inl hx

theorem removal_of_append {l : List ActionHandler} (hmem : .removal x ∈ l ++ aborted id action) :
    .removal x ∈ l := by
  rcases List.mem_append.mp hmem with hold | hnew
  · exact hold
  · exact absurd (mem_aborted.mp hnew).2 (by simp)

theorem Numbered.abort (hn : s.Numbered) (hlt : id < s.next_id) : (s.abort id action).Numbered := by
  refine (hn.store hlt).grow (Nat.le_refl _) (fun x hx => .inl hx) fun x hmem => .inl ?_
  exact removal_of_append hmem

theorem Numbered.arm {when : Int} (hn : s.Numbered) (hlt : id < s.next_id) :
    (s.arm id action when).Numbered := (hn.abort hlt).store hlt

theorem Numbered.post (hn : s.Numbered) (h : ActionHandler) (howns : ∀ id, h = .removal id → s.Owns id) :
    (s.post h).Numbered := by
  refine hn.grow (Nat.le_refl _) (fun x hx => .inl hx) fun x hmem => ?_
  rcases List.mem_append.mp hmem with hold | hnew
  · exact .inl hold
  · exact .inr (howns x (List.mem_singleton.mp hnew).symm)

theorem Numbered.cancel (hn : s.Numbered) (haction : s.m_actions id = some action) :
    ((s.abort id action).post (.removal id)).Numbered := by
  refine (hn.abort (hn.owned id ⟨action, haction⟩)).post _ fun x heq => ?_
  obtain rfl := ActionHandler.removal.inj heq
  exact owns_abort.mpr (.inl rfl)

theorem Numbered.destroy (hn : s.Numbered) : (s.destroy id action).Numbered :=
  hn.grow (Nat.le_refl _) (fun _ hx => .inl (owns_destroy.mp hx).2) fun _ hmem =>
    .inl (removal_of_append hmem)

theorem Numbered.pop (hn : s.Numbered) (i : Nat) : { s with posted := s.posted.eraseIdx i }.Numbered :=
  hn.grow (Nat.le_refl _) (fun _ hx => .inl hx) fun _ hmem => .inl (List.mem_of_mem_eraseIdx hmem)

theorem Numbered.step (hn : s.Numbered) (hstep : s.step e = some s') : s'.Numbered := by
  cases step_steps hstep with
  | set_timer duration function =>
      have hnext : { s with next_id := s.next_id + 1 }.Numbered :=
        hn.grow (Nat.le_succ _) (fun _ hx => .inl hx) fun _ hmem => .inl hmem
      exact hnext.arm (Nat.lt_succ_self _)
  | @insert id action haction hinserted => exact hn.store (hn.owned id ⟨action, haction⟩)
  | @reset id action when function haction => exact hn.arm (hn.owned id ⟨action, haction⟩)
  | cancel haction => exact hn.cancel haction
  | remove haction hinserted => exact hn.destroy
  | remove_missing hmissing => exact hn
  | pass n => exact ⟨hn.owned, hn.removal⟩
  | @expire id action haction hwaiting hdue =>
      refine (hn.store (hn.owned id ⟨action, haction⟩)).post _ fun x heq => ?_
      contradiction
  | @call i id action hposted haction => exact ⟨(hn.pop i).owned, (hn.pop i).removal⟩
  | skip hposted haction => exact hn.pop _
  | removal hposted haction hinserted => exact (hn.pop _).destroy
  | removal_missing hposted hmissing => exact hn.pop _
  | finish hrunning haction hlater => exact ⟨hn.owned, hn.removal⟩
  | @finish_late i id action hrunning haction hlate =>
      exact Numbered.cancel (s := { s with running := s.running.eraseIdx i }) ⟨hn.owned, hn.removal⟩ haction

theorem numbered_start (now : Int) : (start now : TimedActions F).Numbered := by
  refine ⟨fun id hid => ?_, fun id hmem => ?_⟩
  · obtain ⟨action, haction⟩ := hid
    contradiction
  · contradiction

-- An action is removed after everything else that is to be called for it.
structure Orderly (s : TimedActions F) : Prop where
  last : s.posted.Pairwise fun h later => ∀ id ok, h = .removal id → later ≠ .expiry id ok
  still : ∀ id action, .removal id ∈ s.posted → s.m_actions id = some action → action.waiting = false

theorem Orderly.quiet (ho : s.Orderly) (hcareful : s.Careful e) (hturn : s.InTurn e) : s.Quiet e := by
  cases e with
  | remove id => contradiction
  | handler i =>
      obtain ⟨rfl, hidle⟩ := hturn
      intro id hposted action haction hinserted
      refine ⟨ho.still id action (List.mem_of_getElem? hposted) haction, by simp [hidle], fun ok hmem => ?_⟩
      have hlast := ho.last
      obtain ⟨h, rest, hcons⟩ := List.exists_cons_of_ne_nil (List.ne_nil_of_mem hmem)
      rw [hcons, List.getElem?_cons_zero] at hposted
      obtain rfl := Option.some.inj hposted
      rw [hcons] at hmem hlast
      rcases List.mem_cons.mp hmem with heq | hmem
      · contradiction
      · exact (List.pairwise_cons.mp hlast).1 _ hmem id ok rfl rfl
  | set_timer | insert | reset | cancel | pass | expire | finish => trivial

theorem Orderly.store (ho : s.Orderly) (hstill : .removal id ∈ s.posted → action.waiting = false) :
    (s.store id action).Orderly where
  last := ho.last
  still := by
    intro x other hmem hother
    by_cases hx : x = id
    · subst hx
      simp only [TimedActions.store, Function.update_self] at hother
      obtain rfl := Option.some.inj hother
      exact hstill hmem
    · simp only [TimedActions.store, Function.update_of_ne hx] at hother
      exact ho.still x other hmem hother

theorem Orderly.post_expiry (ho : s.Orderly) (hremoval : .removal id ∉ s.posted) :
    (s.post (.expiry id ok)).Orderly where
  last := by
    refine List.pairwise_append.mpr ⟨ho.last, List.pairwise_singleton _ _, ?_⟩
    intro h hmem later hlater x ok' hh heq
    obtain rfl := List.mem_singleton.mp hlater
    obtain ⟨rfl, -⟩ := ActionHandler.expiry.inj heq
    exact hremoval (hh ▸ hmem)
  still := by
    intro x other hmem hother
    refine ho.still x other ?_ hother
    simpa [TimedActions.post] using hmem

theorem Orderly.post_removal (ho : s.Orderly) (haction : s.m_actions id = some action)
    (hwaiting : action.waiting = false) : (s.post (.removal id)).Orderly where
  last := by
    refine List.pairwise_append.mpr ⟨ho.last, List.pairwise_singleton _ _, ?_⟩
    intro h hmem later hlater x ok' hh heq
    obtain rfl := List.mem_singleton.mp hlater
    contradiction
  still := by
    intro x other hmem hother
    rcases List.mem_append.mp hmem with hold | hnew
    · exact ho.still x other hold hother
    · obtain rfl := ActionHandler.removal.inj (List.mem_singleton.mp hnew)
      obtain rfl := Option.some.inj (hother.symm.trans haction)
      exact hwaiting

-- Whichever of them is called.
theorem Orderly.pop (ho : s.Orderly) (i : Nat) : { s with posted := s.posted.eraseIdx i }.Orderly where
  last := ho.last.sublist (List.eraseIdx_sublist ..)
  still x other hmem hother := ho.still x other (List.mem_of_mem_eraseIdx hmem) hother

theorem abort_eq (action : TimedAction F) : s.abort id action =
    if action.waiting then (s.store id { action with waiting := false }).post (.expiry id false)
    else s.store id action := by
  obtain ⟨function, expires_at, waiting, inserted⟩ := action
  cases waiting with
  | true => rfl
  | false => simp [abort, aborted, TimedActions.store]

-- An action that is to be removed has no wait to abort.
theorem Orderly.abort (ho : s.Orderly) (hstill : .removal id ∈ s.posted → action.waiting = false) :
    (s.abort id action).Orderly := by
  rw [abort_eq]
  split
  · rename_i hwaiting
    refine (ho.store fun _ => rfl).post_expiry fun hmem => ?_
    rw [hstill hmem] at hwaiting
    contradiction
  · exact ho.store hstill

theorem Orderly.cancel (ho : s.Orderly) (haction : s.m_actions id = some action) :
    ((s.abort id action).post (.removal id)).Orderly := by
  have habort := ho.abort fun hmem => ho.still id action hmem haction
  exact habort.post_removal (Function.update_self ..) rfl

theorem Orderly.arm {when : Int} (ho : s.Orderly) (hremoval : .removal id ∉ s.posted) :
    (s.arm id action when).Orderly :=
  (ho.abort fun hmem => absurd hmem hremoval).store fun hmem => absurd (removal_of_append hmem) hremoval

theorem Orderly.destroy (ho : s.Orderly) (hwaiting : action.waiting = false) :
    (s.destroy id action).Orderly := by
  have hposted : s.posted ++ aborted id action = s.posted := by simp [aborted, hwaiting]
  refine ⟨?_, fun x other hmem hother => ?_⟩
  · rw [TimedActions.destroy, hposted]
    exact ho.last
  · rw [TimedActions.destroy, hposted] at hmem
    by_cases hx : x = id
    · subst hx
      simp [TimedActions.destroy] at hother
    · simp only [TimedActions.destroy, Function.update_of_ne hx] at hother
      exact ho.still x other hmem hother

theorem Orderly.step (ho : s.Orderly) (hn : s.Numbered) (hcareful : s.Careful e)
    (hstep : s.step e = some s') : s'.Orderly := by
  cases step_steps hstep with
  | set_timer duration function =>
      have hremoval : .removal s.next_id ∉ s.posted := fun hmem =>
        absurd (hn.removal _ hmem) (Nat.lt_irrefl _)
      exact Orderly.arm (s := { s with next_id := s.next_id + 1 }) ⟨ho.last, ho.still⟩ hremoval
  | @insert id action haction hinserted => exact ho.store fun hmem => ho.still id action hmem haction
  | reset when function haction => exact ho.arm hcareful
  | cancel haction => exact ho.cancel haction
  | remove | remove_missing => contradiction
  | pass n => exact ⟨ho.last, ho.still⟩
  | expire haction hwaiting hdue =>
      refine (ho.store fun _ => rfl).post_expiry fun hmem => ?_
      rw [ho.still _ _ hmem haction] at hwaiting
      contradiction
  | @call i => exact ⟨(ho.pop i).last, (ho.pop i).still⟩
  | skip hposted haction => exact ho.pop _
  | removal hposted haction hinserted =>
      exact (ho.pop _).destroy (ho.still _ _ (List.mem_of_getElem? hposted) haction)
  | removal_missing hposted hmissing => exact ho.pop _
  | finish hrunning haction hlater => exact ⟨ho.last, ho.still⟩
  | @finish_late i id action hrunning haction hlate =>
      exact Orderly.cancel (s := { s with running := s.running.eraseIdx i }) ⟨ho.last, ho.still⟩ haction

theorem orderly_start (now : Int) : (start now : TimedActions F).Orderly := by
  refine ⟨List.Pairwise.nil, fun id action hmem => ?_⟩
  contradiction

-- Both hold in every run of a careful user.
structure Tidy (s : TimedActions F) : Prop where
  orderly : s.Orderly
  numbered : s.Numbered

theorem Tidy.step (ht : s.Tidy) (hcareful : s.Careful e) (hstep : s.step e = some s') : s'.Tidy :=
  ⟨ht.orderly.step ht.numbered hcareful hstep, ht.numbered.step hstep⟩

theorem tidy_start (now : Int) : (start now : TimedActions F).Tidy := ⟨orderly_start now, numbered_start now⟩

-- Any handler leads to an action that is there, or to none that is missed.
theorem Sound.handler (hs : s.Sound) (hi : i < s.posted.length) : ∃ later, s.step (.handler i) = some later := by
  have hposted := List.getElem?_eq_getElem hi
  cases hh : s.posted[i] with
  | expiry id ok =>
      rw [hh] at hposted
      obtain ⟨action, haction⟩ := hs.alive id ok (List.mem_of_getElem? hposted)
      cases ok <;> simp [TimedActions.step, TimedActions.handler, hposted, haction]
  | removal id =>
      rw [hh] at hposted
      simp [TimedActions.step, TimedActions.handler, hposted]

theorem Sound.finish (hs : s.Sound) (hi : i < s.running.length) : ∃ later, s.step (.finish i) = some later := by
  have hrunning := List.getElem?_eq_getElem hi
  obtain ⟨action, haction⟩ := hs.running _ (List.getElem_mem hi)
  by_cases hlate : action.expires_at < s.now
  · simp [TimedActions.step, TimedActions.finish, TimedActions.cancel, hrunning, haction, hlate]
  · simp [TimedActions.step, TimedActions.finish, hrunning, haction, hlate]

-- Whatever the io_service calls, in any order and with any number of threads, the action is there,
-- exactly as long as each one goes without anything that is still to be called for it. A careful user
-- never makes one go otherwise if the handlers are called in turn.
theorem sound_throughout_iff {now : Int} {trace : List (ActionEvent F)}
    (hrun : Run step Always (start now) trace s) :
    (Throughout Sound step (start now) trace ↔ Run step Quiet (start now) trace s) ∧
      (Run step (fun s e => s.Careful e ∧ s.InTurn e) (start now) trace s →
        Throughout Sound step (start now) trace) ∧
      (s.Sound → (∀ i < s.posted.length, ∃ later, s.step (.handler i) = some later) ∧
        ∀ i < s.running.length, ∃ later, s.step (.finish i) = some later) := by
  have hiff := hrun.throughout_iff (sound_start now) (fun hs => hs) Sound.step fun _ => not_sound_step
  refine ⟨hiff, fun hcareful => hiff.mpr ?_, fun hs => ⟨fun i => hs.handler, fun i => hs.finish⟩⟩
  exact hcareful.weaken (tidy_start now) (fun ht hboth => ht.step hboth.1) fun ht hboth =>
    ht.orderly.quiet hboth.1 hboth.2

instance (s : TimedActions F) : (e : ActionEvent F) → Decidable (s.Careful e)
  | .reset .. => inferInstanceAs (Decidable (_ ∉ _))
  | .remove _ => inferInstanceAs (Decidable False)
  | .set_timer .. | .insert _ | .cancel _ | .pass _ | .expire _ | .handler _ | .finish _ =>
      inferInstanceAs (Decidable True)

instance (s : TimedActions F) : (e : ActionEvent F) → Decidable (s.InTurn e)
  | .handler _ => inferInstanceAs (Decidable (_ ∧ _))
  | .set_timer .. | .insert _ | .reset .. | .cancel _ | .remove _ | .pass _ | .expire _ | .finish _ =>
      inferInstanceAs (Decidable True)

-- A timer that runs out, with a function that sets it once more, and another that is cancelled.
def twice : List (ActionEvent Nat) :=
  [.set_timer 5 0, .insert 0, .set_timer 7 1, .insert 1, .pass 5, .expire 0, .cancel 1, .handler 0,
    .reset 0 9 none, .finish 0, .handler 0, .pass 4, .handler 0, .expire 0, .handler 0, .pass 1,
    .finish 0, .handler 0]

-- A function that cancels its own action, which another thread removes under it.
def crossed : List (ActionEvent Nat) :=
  [.set_timer 5 0, .insert 0, .pass 5, .expire 0, .handler 0, .cancel 0, .handler 0]

theorem sound_throughout_twice :
    Throughout Sound step (start 0) twice ∧ ¬Throughout Sound step (start 0) crossed := by
  have htwice : (twice.foldlM (guarded step fun s e => s.Careful e ∧ s.InTurn e) (start 0)).isSome = true := by
    decide
  obtain ⟨s, hs⟩ := Option.isSome_iff_exists.mp htwice
  have hrun := Run.of_foldlM hs
  have hcrossed : (crossed.foldlM (guarded step Always) (start 0)).map
      (fun s => (s.running, (s.m_actions 0).isNone)) = some ([0], true) := by decide
  obtain ⟨t, ht, heq⟩ := Option.map_eq_some_iff.mp hcrossed
  obtain ⟨hrunning, hgone⟩ := Prod.mk.inj heq
  refine ⟨(sound_throughout_iff hrun.always).2.1 hrun, fun hthroughout => ?_⟩
  have howns := (hthroughout List.prefix_rfl (Run.of_foldlM ht)).running 0 (by simp [hrunning])
  exact not_owns_iff.mpr (Option.isNone_iff_eq_none.mp hgone) howns

end TimedActions

end RoboCrisp.Util
