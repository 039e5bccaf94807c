import RoboCrisp.Util.TimedScheduler

namespace RoboCrisp.Util

open RoboCrisp.Transition

namespace TimedScheduler

variable {F : Type} {s s' t : TimedScheduler F} {slot : TimedSlot F} {slots : List (TimedSlot F)}
  {slots' : List (TimedSlot F)} {interval : Nat} {e : SlotEvent F} {trace : List (SchedulerEvent F)}

-- Whatever handler is still to be called for an action, on the timer of some slot, that slot has
-- the action.
def PendsListed (s : TimedScheduler F) : Prop := ∀ slot ∈ s.m_slots, slot.PendsListed

-- No posted call of remove() takes an action from a slot that is still to call it.
def RemovesQuiet (s : TimedScheduler F) : SchedulerEvent F → Prop
  | .removal i _ => ∀ id ∈ s.io_service[i]?, ∀ slot ∈ s.m_slots, slot.RemovesQuiet id
  | _ => True

instance (s : TimedScheduler F) : (event : SchedulerEvent F) → Decidable (s.RemovesQuiet event)
  | .removal i _ => inferInstanceAs (Decidable (∀ id ∈ s.io_service[i]?, ∀ slot ∈ s.m_slots,
      slot.RemovesQuiet id))
  | .schedule _ _ | .cancel _ | .pause _ | .unpause _ | .expire _ | .handler _ _ => .isTrue trivial

structure Inventory (s : TimedScheduler F) : Prop extends Placed s where
  pends : s.PendsListed

theorem PendsListed.find_slot (h : s.PendsListed) (interval : Nat) :
    ∀ slot ∈ find_slot interval s.m_slots, slot.PendsListed := by
  intro slot hmem
  rcases mem_find_slot hmem with hmem | rfl
  · exact h slot hmem
  · exact fun _ hpends => absurd hpends nofun

theorem pendsListed_update_slot (h : ∀ slot ∈ slots, slot.PendsListed)
    (hquiet : ∀ id, e = .remove id → ∀ slot ∈ slots, slot.RemovesQuiet id)
    (hupdate : update_slot interval e slots = some slots') : ∀ slot ∈ slots', slot.PendsListed := by
  intro slot hmem
  rcases mem_update_slot hupdate hmem with hmem | ⟨old, hold, -, hstep⟩
  · exact h slot hmem
  · exact (h old hold).step (fun id he => hquiet id he old hold) hstep

theorem Inventory.step {event : SchedulerEvent F} (h : s.Inventory) (hallowed : s.RemovesQuiet event)
    (hstep : s.step event = some s') : s'.Inventory := by
  refine ⟨h.toPlaced.step hstep, ?_⟩
  cases step_steps hstep with
  | schedule hupdate =>
      refine pendsListed_update_slot (h.pends.find_slot _) ?_ hupdate
      exact fun _ he => absurd he nofun
  | remove hi _ hupdate =>
      refine pendsListed_update_slot h.pends ?_ hupdate
      rintro _ ⟨⟩
      exact hallowed _ hi
  | expired => exact h.pends
  | other _ he hupdate =>
      refine pendsListed_update_slot h.pends ?_ hupdate
      rcases he with ⟨_, _, rfl⟩ | rfl | ⟨_, rfl⟩ <;> exact fun _ he => absurd he nofun

theorem not_pendsListed {event : SchedulerEvent F} (h : s.Inventory)
    (hallowed : ¬s.RemovesQuiet event) (hstep : s.step event = some s') : ¬s'.PendsListed := by
  intro hpends
  cases step_steps hstep with
  | @remove i id interval retained slots hi hinterval hupdate =>
      refine hallowed fun other hother slot hmem hlists => ?_
      obtain rfl := Option.some.inj (hi.symm.trans hother)
      have hslot := Option.some.inj ((h.listed slot hmem id hlists).symm.trans hinterval)
      obtain ⟨later, hlater, hremoved⟩ := step_mem_update_slot hupdate h.nodup hmem hslot
      obtain rfl := Option.some.inj hremoved
      by_contra hpending
      exact TimedSlot.not_pendsListed_remove (fun hquiet => hpending (hquiet hlists)) (hpends _ hlater)
  | expired hi hexpired =>
      refine hallowed fun id hid slot hmem hlists => ?_
      obtain rfl := Option.some.inj (hi.symm.trans hid)
      exact absurd hlists (hexpired slot hmem)
  | schedule => exact hallowed trivial
  | @other _ _ _ _ _ hevent =>
      refine hallowed ?_
      cases event with
      | removal i retained => exact absurd rfl (hevent i retained)
      | _ => trivial

-- Whatever is still to be called has its action in the slot, throughout a run in which each
-- action that is removed either is waiting alone, or has nothing that is still to be called, and
-- in no other run.
theorem pendsListed_throughout_iff (hrun : Run step Always empty trace t) :
    Throughout PendsListed step empty trace ↔ Run step RemovesQuiet empty trace t :=
  hrun.throughout_iff ⟨empty_placed, nofun⟩ Inventory.pends Inventory.step not_pendsListed

-- Two actions share an interval, and the first is cancelled.
def shared : List (SchedulerEvent Unit) := [.schedule 5 (), .schedule 5 (), .cancel 0]

-- It is removed after the slot has reset the timer, or at once.
theorem shared_pendsListed :
    ∃ t, Run step Always empty (shared ++ [.expire 5, .handler 5 0, .handler 5 0, .removal 0 false]) t ∧
      Throughout PendsListed step empty
        (shared ++ [.expire 5, .handler 5 0, .handler 5 0, .removal 0 false]) := by
  have hrun : Run step RemovesQuiet empty
      (shared ++ [.expire 5, .handler 5 0, .handler 5 0, .removal 0 false]) _ := .of_foldlM rfl
  exact ⟨_, hrun.always, (pendsListed_throughout_iff hrun.always).mpr hrun⟩

theorem shared_not_pendsListed :
    ∃ t, Run step Always empty (shared ++ [.removal 0 false, .expire 5]) t ∧
      (t.m_slots.map fun slot => slot.m_timer.completions) = [[(.action 0, true), (.slot, true)]] ∧
      (∀ slot ∈ t.m_slots, ¬slot.Lists 0) ∧ ¬t.PendsListed := by
  refine ⟨_, .of_foldlM rfl, rfl, by decide, fun h => ?_⟩
  have hlists := h _ List.mem_cons_self 0 (.inr List.mem_cons_self)
  exact absurd hlists (by decide)

end TimedScheduler

end RoboCrisp.Util
