import Mathlib.Data.Int.Order.Basic
import Mathlib.Logic.Function.Basic
import RoboCrisp.Transition.Run

namespace RoboCrisp.Util

-- ScheduledAction with the expiry time of its timer, and whether a wait on it is under way. There
-- is at most one, since each one follows a new expiry time. set_timer() holds an action that isn't
-- inserted yet, and the scheduler one that is.
structure TimedAction (F : Type) where
  m_function : F
  expires_at : Int
  waiting : Bool
  inserted : Bool
deriving DecidableEq

-- What the io_service is given to call: ScheduledAction::timer_expiry_handler() of the object at an
-- address, with whether the wait is over, or Scheduler::remove() with a weak_ptr.
inductive ActionHandler
  | expiry (id : Nat) (ok : Bool)
  | removal (id : Nat)
deriving DecidableEq

-- The one-time actions of a Scheduler. `m_actions` leads from an address to the object there. Which
-- of the handlers in `posted` are called next is left to the io_service, and so is how many of them at
-- the same time: `running` are the actions whose functions are being called. `called` says which
-- ones have been.
structure TimedActions (F : Type) where
  now : Int
  m_actions : Nat → Option (TimedAction F)
  posted : List ActionHandler
  running : List Nat
  next_id : Nat
  called : List (Nat × F)

-- set_timer() up to where the timer runs, and the insertion that follows. reset() with a duration is
-- the one with a time that is so far from now. What the user's function does are steps of its own, up
-- to `finish`.
inductive ActionEvent (F : Type)
  | set_timer (duration : Int) (function : F)
  | insert (id : Nat)
  | reset (id : Nat) (when : Int) (function : Option F)
  | cancel (id : Nat)
  | remove (id : Nat)
  | pass (n : Nat)
  | expire (id : Nat)
  | handler (i : Nat)
  | finish (i : Nat)

namespace TimedActions

variable {F : Type}

def start (now : Int) : TimedActions F := ⟨now, fun _ => none, [], [], 0, []⟩

-- The handlers of the waits that m_timer->cancel() aborts.
def aborted (id : Nat) (action : TimedAction F) : List ActionHandler :=
  if action.waiting then [.expiry id false] else []

def store (s : TimedActions F) (id : Nat) (action : TimedAction F) : TimedActions F :=
  { s with m_actions := Function.update s.m_actions id (some action) }

-- m_timer->cancel()
def abort (s : TimedActions F) (id : Nat) (action : TimedAction F) : TimedActions F :=
  { s.store id { action with waiting := false } with posted := s.posted ++ aborted id action }

-- m_timer->expires_at() and m_timer->async_wait()
def arm (s : TimedActions F) (id : Nat) (action : TimedAction F) (when : Int) : TimedActions F :=
  (s.abort id action).store id { action with expires_at := when, waiting := true }

-- The constructor and reset()
def set_timer (s : TimedActions F) (duration : Int) (function : F) : TimedActions F :=
  { s with next_id := s.next_id + 1 }.arm s.next_id ⟨function, 0, false, false⟩ (s.now + duration)

-- m_actions.insert()
def insert (s : TimedActions F) (id : Nat) : Option (TimedActions F) := do
  let action ← s.m_actions id
  if action.inserted then none else some (s.store id { action with inserted := true })

def reset (s : TimedActions F) (id : Nat) (when : Int) (function : Option F) :
    Option (TimedActions F) := do
  let action ← s.m_actions id
  return s.arm id { action with m_function := function.getD action.m_function } when

def post (s : TimedActions F) (h : ActionHandler) : TimedActions F :=
  { s with posted := s.posted ++ [h] }

def cancel (s : TimedActions F) (id : Nat) : Option (TimedActions F) := do
  let action ← s.m_actions id
  return (s.abort id action).post (.removal id)

-- The destructor cancels the timer.
def destroy (s : TimedActions F) (id : Nat) (action : TimedAction F) : TimedActions F :=
  { s with
    m_actions := Function.update s.m_actions id none
    posted := s.posted ++ aborted id action }

-- Scheduler::remove(). It misses an action that isn't inserted yet.
def remove (s : TimedActions F) (id : Nat) : TimedActions F :=
  match s.m_actions id with
  | some action => if action.inserted then s.destroy id action else s
  | none => s

def expire (s : TimedActions F) (id : Nat) : Option (TimedActions F) := do
  let action ← s.m_actions id
  if action.waiting ∧ action.expires_at ≤ s.now then
    some ((s.store id { action with waiting := false }).post (.expiry id true))
  else none

-- A handler for an object that is gone has no defined outcome.
def handler (s : TimedActions F) (i : Nat) : Option (TimedActions F) := do
  let h ← s.posted[i]?
  let s := { s with posted := s.posted.eraseIdx i }
  match h with
  | .expiry id ok => do
      let action ← s.m_actions id
      if ok then
        some { s with running := s.running ++ [id], called := s.called ++ [(id, action.m_function)] }
      else some s
  | .removal id => some (s.remove id)

-- The rest of timer_expiry_handler(), after the user's function.
def finish (s : TimedActions F) (i : Nat) : Option (TimedActions F) := do
  let id ← s.running[i]?
  let action ← s.m_actions id
  let s := { s with running := s.running.eraseIdx i }
  if action.expires_at < s.now then s.cancel id else some s

def step (s : TimedActions F) : ActionEvent F → Option (TimedActions F)
  | .set_timer duration function => some (s.set_timer duration function)
  | .insert id => s.insert id
  | .reset id when function => s.reset id when function
  | .cancel id => s.cancel id
  | .remove id => some (s.remove id)
  | .pass n => some { s with now := s.now + n }
  | .expire id => s.expire id
  | .handler i => s.handler i
  | .finish i => s.finish i

-- No action with this address is in the scheduler.
def Missing (s : TimedActions F) (id : Nat) : Prop :=
  ∀ action, s.m_actions id = some action → action.inserted = false

-- What a step does.
inductive Steps (s : TimedActions F) : ActionEvent F → TimedActions F → Prop
  | set_timer (duration : Int) (function : F) :
      Steps s (.set_timer duration function) (s.set_timer duration function)
  | insert {id : Nat} {action : TimedAction F} (haction : s.m_actions id = some action)
      (hinserted : action.inserted = false) :
      Steps s (.insert id) (s.store id { action with inserted := true })
  | reset {id : Nat} {action : TimedAction F} (when : Int) (function : Option F)
      (haction : s.m_actions id = some action) : Steps s (.reset id when function)
        (s.arm id { action with m_function := function.getD action.m_function } when)
  | cancel {id : Nat} {action : TimedAction F} (haction : s.m_actions id = some action) :
      Steps s (.cancel id) ((s.abort id action).post (.removal id))
  | remove {id : Nat} {action : TimedAction F} (haction : s.m_actions id = some action)
      (hinserted : action.inserted = true) : Steps s (.remove id) (s.destroy id action)
  | remove_missing {id : Nat} (hmissing : s.Missing id) : Steps s (.remove id) s
  | pass (n : Nat) : Steps s (.pass n) { s with now := s.now + n }
  | expire {id : Nat} {action : TimedAction F} (haction : s.m_actions id = some action)
      (hwaiting : action.waiting = true) (hdue : action.expires_at ≤ s.now) :
      Steps s (.expire id) ((s.store id { action with waiting := false }).post (.expiry id true))
  | call {i id : Nat} {action : TimedAction F} (hposted : s.posted[i]? = some (.expiry id true))
      (haction : s.m_actions id = some action) :
      Steps s (.handler i)
        { s with
          posted := s.posted.eraseIdx i
          running := s.running ++ [id]
          called := s.called ++ [(id, action.m_function)] }
  | skip {i id : Nat} {action : TimedAction F} (hposted : s.posted[i]? = some (.expiry id false))
      (haction : s.m_actions id = some action) :
      Steps s (.handler i) { s with posted := s.posted.eraseIdx i }
  | removal {i id : Nat} {action : TimedAction F} (hposted : s.posted[i]? = some (.removal id))
      (haction : s.m_actions id = some action) (hinserted : action.inserted = true) :
      Steps s (.handler i) ({ s with posted := s.posted.eraseIdx i }.destroy id action)
  | removal_missing {i id : Nat} (hposted : s.posted[i]? = some (.removal id))
      (hmissing : s.Missing id) : Steps s (.handler i) { s with posted := s.posted.eraseIdx i }
  | finish {i id : Nat} {action : TimedAction F} (hrunning : s.running[i]? = some id)
      (haction : s.m_actions id = some action) (hlater : s.now ≤ action.expires_at) :
      Steps s (.finish i) { s with running := s.running.eraseIdx i }
  | finish_late {i id : Nat} {action : TimedAction F} (hrunning : s.running[i]? = some id)
      (haction : s.m_actions id = some action) (hlate : action.expires_at < s.now) :
      Steps s (.finish i)
        (({ s with running := s.running.eraseIdx i }.abort id action).post (.removal id))

variable {s s' : TimedActions F} {i id : Nat} {e : ActionEvent F}

theorem remove_cases (s : TimedActions F) (id : Nat) :
    (∃ action, s.m_actions id = some action ∧ action.inserted = true ∧ s.remove id = s.destroy id action) ∨
      s.Missing id ∧ s.remove id = s := by
  unfold remove
  split
  · rename_i action haction
    by_cases hinserted : action.inserted = true
    · rw [if_pos hinserted]
      exact .inl ⟨action, haction, hinserted, rfl⟩
    · rw [if_neg hinserted]
      refine .inr ⟨fun other hother => ?_, rfl⟩
      obtain rfl := Option.some.inj (haction.symm.trans hother)
      exact Bool.eq_false_iff.mpr hinserted
  · rename_i hgone
    refine .inr ⟨fun action haction => ?_, rfl⟩
    rw [hgone] at haction
    contradiction

theorem handler_steps (hstep : s.handler i = some s') : s.Steps (.handler i) s' := by
  obtain ⟨h, hposted, hstep⟩ := Option.bind_eq_some_iff.mp hstep
  cases h with
  | expiry id ok =>
      obtain ⟨action, haction, hstep⟩ := Option.bind_eq_some_iff.mp hstep
      cases ok with
      | true =>
          obtain rfl := Option.some.inj hstep
          exact .call hposted haction
      | false =>
          obtain rfl := Option.some.inj hstep
          exact .skip hposted haction
  | removal id =>
      obtain rfl := Option.some.inj hstep
      rcases remove_cases { s with posted := s.posted.eraseIdx i } id with
        ⟨action, haction, hinserted, heq⟩ | ⟨hmissing, heq⟩
      · rw [heq]
        exact .removal hposted haction hinserted
      · rw [heq]
        exact .removal_missing hposted hmissing

theorem finish_steps (hstep : s.finish i = some s') : s.Steps (.finish i) s' := by
  obtain ⟨id, hrunning, hstep⟩ := Option.bind_eq_some_iff.mp hstep
  obtain ⟨action, haction, hstep⟩ := Option.bind_eq_some_iff.mp hstep
  simp only at hstep
  split at hstep
  · rename_i hlate
    obtain ⟨same, hsame, hstep⟩ := Option.bind_eq_some_iff.mp hstep
    obtain rfl := Option.some.inj (haction.symm.trans hsame)
    obtain rfl := Option.some.inj hstep
    exact .finish_late hrunning haction hlate
  · rename_i hlater
    obtain rfl := Option.some.inj hstep
    exact .finish hrunning haction (Int.not_lt.mp hlater)

theorem step_steps (hstep : s.step e = some s') : s.Steps e s' := by
  cases e with
  | set_timer duration function =>
      obtain rfl := Option.some.inj hstep
      exact .set_timer duration function
  | insert id =>
      obtain ⟨action, haction, hstep⟩ := Option.bind_eq_some_iff.mp hstep
      obtain ⟨hinserted, hstep⟩ := Option.ite_none_left_eq_some.mp hstep
      obtain rfl := Option.some.inj hstep
      exact .insert haction (Bool.eq_false_iff.mpr hinserted)
  | reset id when function =>
      obtain ⟨action, haction, hstep⟩ := Option.bind_eq_some_iff.mp hstep
      obtain rfl := Option.some.inj hstep
      exact .reset when function haction
  | cancel id =>
      obtain ⟨action, haction, hstep⟩ := Option.bind_eq_some_iff.mp hstep
      obtain rfl := Option.some.inj hstep
      exact .cancel haction
  | remove id =>
      obtain rfl := Option.some.inj hstep
      rcases s.remove_cases id with ⟨action, haction, hinserted, heq⟩ | ⟨hmissing, heq⟩
      · rw [heq]
        exact .remove haction hinserted
      · rw [heq]
        exact .remove_missing hmissing
  | pass n =>
      obtain rfl := Option.some.inj hstep
      exact .pass n
  | expire id =>
      obtain ⟨action, haction, hstep⟩ := Option.bind_eq_some_iff.mp hstep
      obtain ⟨⟨hwaiting, hdue⟩, hstep⟩ := Option.ite_none_right_eq_some.mp hstep
      obtain rfl := Option.some.inj hstep
      exact .expire haction hwaiting hdue
  | handler i => exact handler_steps hstep
  | finish i => exact finish_steps hstep

end TimedActions

end RoboCrisp.Util
