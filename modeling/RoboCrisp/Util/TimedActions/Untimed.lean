import RoboCrisp.Util.Scheduler
import RoboCrisp.Util.TimedActions.Drained

namespace RoboCrisp.Util

open RoboCrisp.Transition

namespace TimedActions

variable {F : Type} {s s' : TimedActions F} {i id x : Nat} {action : TimedAction F} {e : ActionEvent F}

-- What a scheduler that has no clock knows of a timer.
def untimed_wait (s : TimedActions F) (id : Nat) (action : TimedAction F) : Wait :=
  if action.waiting then .pending else if s.queued id = 0 then .idle else .expired

def untimed_action (s : TimedActions F) (id : Nat) : Option (ScheduledAction F) :=
  (s.m_actions id).map fun action => ⟨id, action.m_function, s.untimed_wait id action⟩

-- The same actions without their clock.
def untimed (s : TimedActions F) : Scheduler F :=
  ⟨[], (List.range s.next_id).filterMap s.untimed_action, s.next_id⟩

-- What a step is for a scheduler that has no clock, and no reset() either.
def untimed_step (s : TimedActions F) (scheduler : Scheduler F) : ActionEvent F → Scheduler F
  | .set_timer _ function => (scheduler.set_timer function).1
  | .cancel id => scheduler.abort_wait id
  | .remove id => scheduler.remove_scheduled id
  | .expire id => scheduler.expire id
  | .handler i => match s.posted[i]? with
      | some (.expiry id true) => scheduler.finish id
      | some (.removal id) => scheduler.remove_scheduled id
      | _ => scheduler
  | .finish i => match s.running[i]? with
      | some id => if (s.m_actions id).any fun action => action.expires_at < s.now then
          scheduler.abort_wait id else scheduler
      | none => scheduler
  | .insert _ | .reset .. | .pass _ => scheduler

-- An action is called once, so that it's either waiting or to be called.
def Once (s : TimedActions F) : Prop := ∀ id, s.budget id ≤ 1

theorem once_start (now : Int) : (start now : TimedActions F).Once := fun _ => Nat.le_refl 1

theorem Once.step (honce : s.Once) (hreset : ∀ id, e.resets id = 0) (hstep : s.step e = some s') :
    s'.Once := by
  intro id
  have hbudget : s'.budget id ≤ s.budget id + e.resets id := budget_step hstep
  have hone := honce id
  rw [hreset id] at hbudget
  omega

theorem Once.queued_add_waits (honce : s.Once) (id : Nat) : s.queued id + s.waits id ≤ 1 := by
  have hone := honce id
  unfold budget at hone
  omega

theorem id_of_untimed_action {scheduled : ScheduledAction F} (h : s.untimed_action id = some scheduled) :
    scheduled.id = id := by
  obtain ⟨action, -, rfl⟩ := Option.map_eq_some_iff.mp h
  rfl

theorem untimed_action_of_some (haction : s.m_actions id = some action) :
    s.untimed_action id = some ⟨id, action.m_function, s.untimed_wait id action⟩ := by
  rw [untimed_action, haction, Option.map_some]

theorem untimed_action_congr (hactions : s'.m_actions id = s.m_actions id)
    (hqueued : s'.queued id = s.queued id) : s'.untimed_action id = s.untimed_action id := by
  simp only [untimed_action, untimed_wait, hactions, hqueued]

theorem untimed_congr (hnext : s'.next_id = s.next_id)
    (hsame : ∀ id, s'.untimed_action id = s.untimed_action id) : s'.untimed = s.untimed := by
  rw [untimed, untimed, hnext, funext hsame]

-- A step that is about one action changes it in the same way where there is no clock.
theorem untimed_update (f : ScheduledAction F → ScheduledAction F) (hnext : s'.next_id = s.next_id)
    (hid : s'.untimed_action id = (s.untimed_action id).map f)
    (hother : ∀ x, x ≠ id → s'.untimed_action x = s.untimed_action x) :
    s'.untimed = s.untimed.update_scheduled id f := by
  have hmap : ∀ x, s'.untimed_action x =
      (s.untimed_action x).map fun scheduled => if scheduled.id = id then f scheduled else scheduled := by
    intro x
    cases hx : s.untimed_action x with
    | none =>
        by_cases heq : x = id
        · subst heq
          rw [hid, hx, Option.map_none, Option.map_none]
        · rw [hother x heq, hx, Option.map_none]
    | some scheduled =>
        have hscheduled := id_of_untimed_action hx
        rw [Option.map_some, hscheduled]
        by_cases heq : x = id
        · subst heq
          rw [hid, hx, Option.map_some, if_pos rfl]
        · rw [hother x heq, hx, if_neg heq]
  rw [untimed, Scheduler.update_scheduled, untimed, hnext, List.map_filterMap, funext hmap]

theorem untimed_remove (hnext : s'.next_id = s.next_id) (hid : s'.untimed_action id = none)
    (hother : ∀ x, x ≠ id → s'.untimed_action x = s.untimed_action x) :
    s'.untimed = s.untimed.remove_scheduled id := by
  have hfilter : ∀ x, s'.untimed_action x =
      (s.untimed_action x).filter fun scheduled => scheduled.id ≠ id := by
    intro x
    cases hx : s.untimed_action x with
    | none =>
        by_cases heq : x = id
        · subst heq
          rw [hid, Option.filter_none]
        · rw [hother x heq, hx, Option.filter_none]
    | some scheduled =>
        have hscheduled := id_of_untimed_action hx
        by_cases heq : x = id
        · subst heq
          rw [hid, Option.filter_some_neg]
          simp [hscheduled]
        · rw [hother x heq, hx, Option.filter_some_pos]
          simp [hscheduled, heq]
  rw [untimed, Scheduler.remove_scheduled, untimed, hnext, List.filter_filterMap, funext hfilter]

theorem untimed_store_other (hx : x ≠ id) (hqueued : s'.queued x = s.queued x)
    (hactions : s'.m_actions = Function.update s.m_actions id (some action)) :
    s'.untimed_action x = s.untimed_action x :=
  untimed_action_congr (by rw [hactions, Function.update_of_ne hx]) hqueued

theorem untimed_set_timer (duration : Int) (function : F) :
    (s.set_timer duration function).untimed = (s.untimed.set_timer function).1 := by
  have hnew : (s.set_timer duration function).untimed_action s.next_id =
      some ⟨s.next_id, function, .pending⟩ := by
    simp [untimed_action, untimed_wait, set_timer, arm, store]
  have hold : (List.range s.next_id).filterMap (s.set_timer duration function).untimed_action =
      (List.range s.next_id).filterMap s.untimed_action := by
    refine List.filterMap_congr fun x hx => ?_
    have hne : x ≠ s.next_id := Nat.ne_of_lt (List.mem_range.mp hx)
    refine untimed_action_congr ?_ queued_arm
    simp [set_timer, arm, abort, store, Function.update_of_ne hne]
  have hnext : (s.set_timer duration function).next_id = s.next_id + 1 := rfl
  rw [untimed, hnext, List.range_succ, List.filterMap_append, hold, List.filterMap_cons_some hnew]
  rfl

theorem Once.untimed_cancel (honce : s.Once) (haction : s.m_actions id = some action)
    {running : List Nat} :
    (({ s with running := running }.abort id action).post (.removal id)).untimed =
      s.untimed.abort_wait id := by
  have hqueued : ∀ x, (({ s with running := running }.abort id action).post (.removal id)).queued x =
      s.queued x := fun x => by
    rw [queued_post_removal, queued_abort]
    rfl
  refine untimed_update _ rfl ?_ fun x hx => untimed_store_other hx (hqueued x) rfl
  have hafter : (({ s with running := running }.abort id action).post (.removal id)).m_actions id =
      some { action with waiting := false } := by
    simp [post, abort, store]
  rw [untimed_action_of_some hafter, untimed_action_of_some haction, Option.map_some]
  have hone := honce.queued_add_waits id
  rw [waits_of_some haction] at hone
  cases hwaiting : action.waiting with
  | true =>
      rw [hwaiting, if_pos rfl] at hone
      have hzero : s.queued id = 0 := by omega
      simp [untimed_wait, hwaiting, hqueued, hzero]
  | false =>
      have hwait : s.untimed_wait id action ≠ .pending := by
        unfold untimed_wait
        rw [hwaiting]
        split
        · contradiction
        · split <;> simp
      rw [if_neg hwait]
      simp [untimed_wait, hwaiting, hqueued]

-- The function is called for the one expiry that there is.
theorem Once.untimed_call (honce : s.Once) (hposted : s.posted[i]? = some (.expiry id true))
    (haction : s.m_actions id = some action) {running : List Nat} {called : List (Nat × F)} :
    { s with posted := s.posted.eraseIdx i, running := running, called := called }.untimed =
      s.untimed.finish id := by
  have hqueued : ∀ x, s.queued x = { s with posted := s.posted.eraseIdx i }.queued x +
      if ActionHandler.expiry id true = .expiry x true then 1 else 0 := fun x => queued_pop hposted
  have hone := honce.queued_add_waits id
  have hbefore := hqueued id
  rw [if_pos rfl] at hbefore
  have hzero : { s with posted := s.posted.eraseIdx i }.queued id = 0 := by omega
  have hnone : s.waits id = 0 := by omega
  rw [waits_of_some haction] at hnone
  have hwaiting : action.waiting = false := by
    cases hwaiting : action.waiting with
    | true => exact absurd hnone (by simp [hwaiting])
    | false => rfl
  refine untimed_update _ rfl ?_ fun x hx => untimed_action_congr rfl ?_
  · rw [untimed_action_of_some haction, Option.map_some]
    refine (untimed_action_of_some
      (s := { s with posted := s.posted.eraseIdx i, running := running, called := called }) haction).trans ?_
    rw [untimed_wait, hwaiting]
    exact congrArg (fun wait => some (ScheduledAction.mk id action.m_function wait)) (if_pos hzero)
  · rw [hqueued x, if_neg (by simpa using Ne.symm hx), Nat.add_zero]
    rfl

theorem untimed_destroy (action : TimedAction F) :
    (s.destroy id action).untimed = s.untimed.remove_scheduled id := by
  refine untimed_remove rfl (by simp [untimed_action, destroy]) fun x hx => ?_
  exact untimed_action_congr (by simp [destroy, Function.update_of_ne hx]) queued_destroy

theorem untimed_gone (hgone : ¬s.Owns id) : s.untimed = s.untimed.remove_scheduled id :=
  untimed_remove rfl (by rw [untimed_action, not_owns_iff.mp hgone, Option.map_none]) fun _ _ => rfl

theorem untimed_pop {h : ActionHandler} (hposted : s.posted[i]? = some h) (hne : ∀ id, h ≠ .expiry id true) :
    { s with posted := s.posted.eraseIdx i }.untimed = s.untimed :=
  untimed_congr rfl fun id => untimed_action_congr rfl (queued_pop_of_ne hposted (hne id))

-- A scheduler that has no clock knows of no insertion.
theorem untimed_insert (haction : s.m_actions id = some action) :
    (s.store id { action with inserted := true }).untimed = s.untimed := by
  refine untimed_congr rfl fun x => ?_
  by_cases hx : x = id
  · subst hx
    have hafter : (s.store x { action with inserted := true }).m_actions x =
        some { action with inserted := true } := by simp [store]
    rw [untimed_action_of_some hafter, untimed_action_of_some haction]
    rfl
  · exact untimed_store_other hx rfl rfl

theorem untimed_step_finish {scheduler : Scheduler F} (hrunning : s.running[i]? = some id)
    (haction : s.m_actions id = some action) : s.untimed_step scheduler (.finish i) =
      if action.expires_at < s.now then scheduler.abort_wait id else scheduler := by
  simp [untimed_step, hrunning, haction]

-- Without its clock, the scheduler does what one does that has none.
theorem Once.step_untimed (honce : s.Once) (hreset : ∀ id, e.resets id = 0) (hnot : s.NotMissed e)
    (hstep : s.step e = some s') : s'.untimed = s.untimed_step s.untimed e := by
  cases step_steps hstep with
  | set_timer duration function => exact untimed_set_timer duration function
  | insert haction hinserted => exact untimed_insert haction
  | @reset x => exact absurd (hreset x) (by simp [ActionEvent.resets])
  | cancel haction => exact honce.untimed_cancel haction
  | remove haction hinserted => exact untimed_destroy _
  | @remove_missing x hmissing => exact untimed_gone (not_owns_of_missing hmissing hnot)
  | pass n => rfl
  | @expire id action haction hwaiting hdue =>
      have hqueued : ∀ x, ((s.store id { action with waiting := false }).post (.expiry id true)).queued x =
          s.queued x + if id = x then 1 else 0 := fun x => queued_post_expiry
      refine untimed_update _ rfl ?_ fun x hx => untimed_store_other hx ?_ rfl
      · have hafter : ((s.store id { action with waiting := false }).post (.expiry id true)).m_actions id =
            some { action with waiting := false } := by
          simp [post, store]
        rw [untimed_action_of_some hafter, untimed_action_of_some haction, Option.map_some]
        simp [untimed_wait, hqueued]
      · rw [hqueued, if_neg (Ne.symm hx), Nat.add_zero]
  | call hposted haction =>
      rw [untimed_step, hposted]
      exact honce.untimed_call hposted haction
  | skip hposted haction =>
      rw [untimed_step, hposted]
      exact untimed_pop hposted (by simp)
  | removal hposted haction hinserted =>
      rw [untimed_step, hposted, ← untimed_pop hposted (by simp)]
      exact untimed_destroy _
  | removal_missing hposted hmissing =>
      rw [untimed_step, hposted, untimed_pop hposted (by simp)]
      exact untimed_gone (not_owns_of_missing hmissing (hnot _ (by simp [hposted, ActionHandler.removed])))
  | finish hrunning haction hlater =>
      rw [untimed_step_finish hrunning haction, if_neg (Int.not_lt.mpr hlater)]
      rfl
  | finish_late hrunning haction hlate =>
      rw [untimed_step_finish hrunning haction, if_pos hlate]
      exact honce.untimed_cancel haction

theorem step_untimed_of_run {now : Int} {trace : List (ActionEvent F)}
    (hrun : Run step (fun _ e => ∀ id, e.resets id = 0) (start now) trace s)
    (hreset : ∀ id, e.resets id = 0) (hnot : s.NotMissed e) (hstep : s.step e = some s') :
    s'.untimed = s.untimed_step s.untimed e :=
  (hrun.invariant (once_start now) Once.step : s.Once).step_untimed hreset hnot hstep

end TimedActions

end RoboCrisp.Util
