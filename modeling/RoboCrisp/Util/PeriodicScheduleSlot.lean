import RoboCrisp.Util.Scheduler
import RoboCrisp.Util.SteadyTimer
import RoboCrisp.Transition.Run

namespace RoboCrisp.Util

open RoboCrisp.Transition

-- What waits on the timer of a slot: timer_expiry_handler() of the action at an address, or that
-- of the slot.
inductive Waiter
  | action (id : Nat)
  | slot
deriving DecidableEq

-- PeriodicScheduleSlot with its timer
structure TimedSlot (F : Type) extends PeriodicScheduleSlot F where
  m_timer : SteadyTimer Waiter

-- `handler` is the call of a completion handler by the io_service. What the user's function does
-- in it (`calls` says which is called) are steps of its own.
inductive SlotEvent (F : Type)
  | push (action : PeriodicAction F)
  | set_active (id : Nat) (active : Bool)
  | remove (id : Nat)
  | expire
  | handler (i : Nat)

namespace TimedSlot

variable {F : Type}

def make (interval : Nat) : TimedSlot F := ⟨⟨interval, []⟩, .empty⟩

def reset_timer (slot : TimedSlot F) : TimedSlot F :=
  let active := slot.m_actions.filter fun action => action.active
  { slot with
    m_timer := ((active.map fun action => .action action.id).foldl
      SteadyTimer.async_wait slot.m_timer.expires_from_now).async_wait .slot }

-- push() and emplace(), where the new object is `action`.
def push (slot : TimedSlot F) (action : PeriodicAction F) : TimedSlot F :=
  let was_empty := slot.m_actions.isEmpty
  let slot := { slot with m_actions := action :: slot.m_actions }
  if was_empty then slot.reset_timer else slot

-- PeriodicAction::pause() and unpause(), and what cancel() does at once.
def set_active (slot : TimedSlot F) (id : Nat) (active : Bool) : TimedSlot F :=
  { slot with
    m_actions := slot.m_actions.map fun action => if action.id = id then { action with active } else action }

def remove (slot : TimedSlot F) (id : Nat) : TimedSlot F :=
  let slot := { slot with m_actions := slot.m_actions.filter fun action => action.id ≠ id }
  if slot.m_actions.isEmpty then { slot with m_timer := slot.m_timer.cancel } else slot

def timer_expiry_handler (slot : TimedSlot F) (ok : Bool) : TimedSlot F :=
  if ok then slot.reset_timer else slot

-- PeriodicAction::timer_expiry_handler() with the function that it calls, where the raw pointer
-- that the completion handler has still leads to an action of the slot.
def calls (slot : TimedSlot F) (i : Nat) : Option F := do
  let (waiter, ok) ← slot.m_timer.completions[i]?
  match waiter with
  | .slot => none
  | .action id =>
      let action ← slot.m_actions.find? fun action => action.id = id
      if ok && action.active then some action.function else none

def handler (slot : TimedSlot F) (i : Nat) : Option (TimedSlot F) := do
  let (completion, m_timer) ← slot.m_timer.complete i
  let slot := { slot with m_timer }
  match completion with
  | (.slot, ok) => return slot.timer_expiry_handler ok
  | (.action _, _) => return slot

def step (slot : TimedSlot F) : SlotEvent F → Option (TimedSlot F)
  | .push action => some (slot.push action)
  | .set_active id active => some (slot.set_active id active)
  | .remove id => some (slot.remove id)
  | .expire => some { slot with m_timer := slot.m_timer.expire }
  | .handler i => slot.handler i

variable {slot slot' : TimedSlot F}

-- What waits on the timer after reset_timer()
def waiters (slot : TimedSlot F) : List Waiter :=
  ((slot.m_actions.filter fun action => action.active).map fun action => .action action.id) ++ [.slot]

theorem reset_timer_eq (slot : TimedSlot F) : slot.reset_timer =
    { slot with m_timer := ⟨slot.waiters, slot.m_timer.cancel.completions⟩ } := by
  rw [reset_timer, SteadyTimer.foldl_async_wait]
  rfl

theorem action_mem_waiters {id : Nat} (h : .action id ∈ slot.waiters) :
    ∃ action ∈ slot.m_actions, action.id = id := by
  rcases List.mem_append.mp h with h | h
  · obtain ⟨action, hmem, hid⟩ := List.mem_map.mp h
    exact ⟨action, List.mem_of_mem_filter hmem, Waiter.action.inj hid⟩
  · exact absurd (List.mem_singleton.mp h) nofun

@[simp]
theorem m_actions_push (action : PeriodicAction F) :
    (slot.push action).m_actions = action :: slot.m_actions := by
  rw [push]
  split <;> rfl

@[simp]
theorem m_actions_remove (id : Nat) :
    (slot.remove id).m_actions = slot.m_actions.filter fun action => action.id ≠ id := by
  rw [remove]
  split <;> rfl

-- A handler leaves the actions alone, and resets the timer where the slot's own wait has
-- expired.
theorem handler_some {i : Nat} (h : slot.handler i = some slot') : ∃ completion m_timer,
    slot.m_timer.complete i = some (completion, m_timer) ∧
      slot' = if completion = (.slot, true) then reset_timer { slot with m_timer }
        else { slot with m_timer } := by
  obtain ⟨⟨⟨waiter, ok⟩, m_timer⟩, hcomplete, h⟩ := Option.bind_eq_some_iff.mp h
  refine ⟨(waiter, ok), m_timer, hcomplete, ?_⟩
  cases waiter with
  | action id =>
      obtain rfl := Option.some.inj h
      rfl
  | slot =>
      obtain rfl := Option.some.inj h
      cases ok <;> rfl

end TimedSlot

end RoboCrisp.Util
