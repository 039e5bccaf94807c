import Mathlib.Data.List.Basic
import Mathlib.Data.List.Nodup

namespace RoboCrisp.Util

-- What is waiting on a timer: nothing, a wait that can still be aborted, or a handler that
-- the io_service has got with success.
inductive Wait
  | idle
  | pending
  | expired
deriving DecidableEq

-- An object that a shared_ptr of the scheduler owns. `id` stands for its address, which is
-- what a weak_ptr keeps.
structure ScheduledAction (F : Type) where
  id : Nat
  m_function : F
  m_timer : Wait

structure PeriodicAction (F : Type) where
  id : Nat
  function : F
  active : Bool

structure PeriodicScheduleSlot (F : Type) where
  m_interval : Nat
  m_actions : List (PeriodicAction F)

-- `next_id` is the address of the next object.
structure Scheduler (F : Type) where
  m_slots : List (PeriodicScheduleSlot F)
  m_actions : List (ScheduledAction F)
  next_id : Nat

namespace PeriodicScheduleSlot

variable {F : Type}

-- The action goes in front of the slot for its interval, or into a new slot.
def emplace (interval : Nat) (action : PeriodicAction F) :
    List (PeriodicScheduleSlot F) → List (PeriodicScheduleSlot F)
  | [] => [⟨interval, [action]⟩]
  | slot :: rest =>
      if slot.m_interval = interval then { slot with m_actions := action :: slot.m_actions } :: rest
      else slot :: emplace interval action rest

theorem perm_emplace (interval : Nat) (action : PeriodicAction F) (slots : List (PeriodicScheduleSlot F)) :
    ((emplace interval action slots).flatMap m_actions).Perm (action :: slots.flatMap m_actions) := by
  induction slots with
  | nil => exact List.Perm.refl _
  | cons slot rest ih =>
      rw [emplace]
      split
      · exact List.Perm.refl _
      · rw [List.flatMap_cons, List.flatMap_cons]
        exact (ih.append_left slot.m_actions).trans List.perm_middle

end PeriodicScheduleSlot

namespace Scheduler

variable {F : Type}

def empty : Scheduler F := ⟨[], [], 0⟩

-- The result is a weak_ptr to the new action, whose timer runs.
def set_timer (scheduler : Scheduler F) (function : F) : Scheduler F × Nat :=
  ({ scheduler with
      m_actions := scheduler.m_actions ++ [⟨scheduler.next_id, function, .pending⟩]
      next_id := scheduler.next_id + 1 }, scheduler.next_id)

-- The result is a weak_ptr to the new action.
def schedule (scheduler : Scheduler F) (interval : Nat) (function : F) : Scheduler F × Nat :=
  ({ scheduler with
      m_slots := PeriodicScheduleSlot.emplace interval ⟨scheduler.next_id, function, true⟩ scheduler.m_slots
      next_id := scheduler.next_id + 1 }, scheduler.next_id)

-- The actions of all slots.
def periodic (scheduler : Scheduler F) : List (PeriodicAction F) :=
  scheduler.m_slots.flatMap PeriodicScheduleSlot.m_actions

def find_scheduled (scheduler : Scheduler F) (id : Nat) : Option (ScheduledAction F) :=
  scheduler.m_actions.find? fun action => action.id = id

def find_periodic (scheduler : Scheduler F) (id : Nat) : Option (PeriodicAction F) :=
  scheduler.periodic.find? fun action => action.id = id

def update_scheduled (scheduler : Scheduler F) (id : Nat) (f : ScheduledAction F → ScheduledAction F) :
    Scheduler F :=
  { scheduler with
    m_actions := scheduler.m_actions.map fun action => if action.id = id then f action else action }

def update_slots (scheduler : Scheduler F) (f : List (PeriodicAction F) → List (PeriodicAction F)) :
    Scheduler F :=
  { scheduler with
    m_slots := scheduler.m_slots.map fun slot => { slot with m_actions := f slot.m_actions } }

-- What ScheduledAction::cancel does to the timer. A handler that is with the io_service
-- already is not called back.
def abort_wait (scheduler : Scheduler F) (id : Nat) : Scheduler F :=
  scheduler.update_scheduled id fun action =>
    { action with m_timer := if action.m_timer = .pending then .idle else action.m_timer }

-- The time of the timer has come.
def expire (scheduler : Scheduler F) (id : Nat) : Scheduler F :=
  scheduler.update_scheduled id fun action => { action with m_timer := .expired }

-- The handler has been called.
def finish (scheduler : Scheduler F) (id : Nat) : Scheduler F :=
  scheduler.update_scheduled id fun action => { action with m_timer := .idle }

-- What PeriodicAction::cancel does at once.
def deactivate (scheduler : Scheduler F) (id : Nat) : Scheduler F :=
  scheduler.update_slots fun actions =>
    actions.map fun action => if action.id = id then { action with active := false } else action

def remove_scheduled (scheduler : Scheduler F) (id : Nat) : Scheduler F :=
  { scheduler with m_actions := scheduler.m_actions.filter fun action => action.id ≠ id }

def remove_periodic (scheduler : Scheduler F) (id : Nat) : Scheduler F :=
  scheduler.update_slots fun actions => actions.filter fun action => action.id ≠ id

theorem find_scheduled_some {scheduler : Scheduler F} {id : Nat} {action : ScheduledAction F}
    (h : scheduler.find_scheduled id = some action) : action ∈ scheduler.m_actions ∧ action.id = id :=
  ⟨List.mem_of_find?_eq_some h, by simpa using List.find?_some h⟩

theorem find_scheduled_of_mem {scheduler : Scheduler F} {action : ScheduledAction F}
    (h : action ∈ scheduler.m_actions) : scheduler.find_scheduled action.id ≠ none := by
  intro hnone
  have hother := List.find?_eq_none.mp hnone action h
  simp at hother

theorem find_periodic_some {scheduler : Scheduler F} {id : Nat} {action : PeriodicAction F}
    (h : scheduler.find_periodic id = some action) : action ∈ scheduler.periodic ∧ action.id = id :=
  ⟨List.mem_of_find?_eq_some h, by simpa using List.find?_some h⟩

theorem find_periodic_of_mem {scheduler : Scheduler F} {action : PeriodicAction F}
    (h : action ∈ scheduler.periodic) : scheduler.find_periodic action.id ≠ none := by
  intro hnone
  have hother := List.find?_eq_none.mp hnone action h
  simp at hother

theorem mem_update_scheduled {scheduler : Scheduler F} {id : Nat}
    {f : ScheduledAction F → ScheduledAction F} {action : ScheduledAction F}
    (h : action ∈ (scheduler.update_scheduled id f).m_actions) :
    ∃ old ∈ scheduler.m_actions, (old.id = id ∧ action = f old) ∨ (old.id ≠ id ∧ action = old) := by
  obtain ⟨old, hold, rfl⟩ := List.mem_map.mp h
  refine ⟨old, hold, ?_⟩
  by_cases hid : old.id = id
  · rw [if_pos hid]
    exact .inl ⟨hid, rfl⟩
  · rw [if_neg hid]
    exact .inr ⟨hid, rfl⟩

-- A wait goes on only for the other actions.
theorem mem_abort_wait {scheduler : Scheduler F} {id : Nat} {action : ScheduledAction F}
    (h : action ∈ (scheduler.abort_wait id).m_actions) : ∃ old ∈ scheduler.m_actions,
      action.id = old.id ∧ (action.m_timer = .pending → old.m_timer = .pending ∧ old.id ≠ id) := by
  obtain ⟨old, hold, ⟨hid, rfl⟩ | ⟨hid, rfl⟩⟩ := mem_update_scheduled h
  · refine ⟨old, hold, rfl, fun hpending => ?_⟩
    simp only at hpending
    split at hpending
    · exact absurd hpending (by decide)
    · rename_i hwait
      exact absurd hpending hwait
  · exact ⟨action, hold, rfl, fun hpending => ⟨hpending, hid⟩⟩

variable (scheduler : Scheduler F)

theorem perm_periodic_schedule (interval : Nat) (function : F) :
    (scheduler.schedule interval function).1.periodic.Perm
      (⟨scheduler.next_id, function, true⟩ :: scheduler.periodic) :=
  PeriodicScheduleSlot.perm_emplace _ _ _

theorem periodic_deactivate (id : Nat) : (scheduler.deactivate id).periodic =
    scheduler.periodic.map fun action => if action.id = id then { action with active := false } else action := by
  simp only [deactivate, update_slots, periodic, List.flatMap_map, List.map_flatMap]

theorem periodic_remove_periodic (id : Nat) : (scheduler.remove_periodic id).periodic =
    scheduler.periodic.filter fun action => action.id ≠ id := by
  simp only [remove_periodic, update_slots, periodic, List.flatMap_map, List.filter_flatMap]

end Scheduler

end RoboCrisp.Util
