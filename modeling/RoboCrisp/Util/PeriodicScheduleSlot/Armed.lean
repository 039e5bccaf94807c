import RoboCrisp.Util.PeriodicScheduleSlot

namespace RoboCrisp.Util

open RoboCrisp.Transition

namespace TimedSlot

variable {F : Type} {slot slot' t : TimedSlot F} {trace : List (SlotEvent F)}

-- Unless a handler of the slot is still to run, the slot waits on the timer exactly while it has
-- actions, and waits there once. A handler whose wait was aborted does nothing and is not counted.
def Armed (slot : TimedSlot F) : Prop :=
  slot.m_timer.queued .slot = 0 →
    slot.m_timer.armed .slot = if slot.m_actions.isEmpty then 0 else 1

instance (slot : TimedSlot F) : Decidable slot.Armed := inferInstanceAs (Decidable (_ → _))

-- The slot's handler is not called for an expiry that an empty slot has had, or it is not the
-- last one that is.
def ResetsFull (slot : TimedSlot F) : SlotEvent F → Prop
  | .handler i => slot.m_timer.completions[i]? = some (.slot, true) →
      slot.m_actions.isEmpty = true → 1 < slot.m_timer.queued .slot
  | _ => True

instance (slot : TimedSlot F) : (e : SlotEvent F) → Decidable (slot.ResetsFull e)
  | .handler i => inferInstanceAs (Decidable (slot.m_timer.completions[i]? = some (.slot, true) →
      slot.m_actions.isEmpty = true → 1 < slot.m_timer.queued .slot))
  | .push _ | .set_active _ _ | .remove _ | .expire => .isTrue trivial

structure Rearmed (slot : TimedSlot F) : Prop where
  once : slot.m_timer.armed .slot ≤ 1
  full : slot.m_actions ≠ [] → slot.m_timer.armed .slot = 1 ∨ 0 < slot.m_timer.queued .slot
  empty : slot.m_actions = [] → slot.m_timer.armed .slot = 0 ∨ 0 < slot.m_timer.queued .slot

theorem Rearmed.armed (h : slot.Rearmed) : slot.Armed := by
  intro hqueued
  split
  · rename_i hempty
    exact (h.empty (List.isEmpty_iff.mp hempty)).resolve_right (hqueued ▸ Nat.lt_irrefl 0)
  · rename_i hfull
    exact (h.full (List.isEmpty_iff.not.mp hfull)).resolve_right (hqueued ▸ Nat.lt_irrefl 0)

theorem armed_reset_timer (slot : TimedSlot F) : slot.reset_timer.m_timer.armed .slot = 1 := by
  have hactions : (slot.m_actions.filter (fun action => action.active) |>.map
      fun action => Waiter.action action.id).count .slot = 0 := by
    rw [List.count_eq_zero]
    simp
  rw [reset_timer_eq, SteadyTimer.armed, waiters, List.count_append, hactions]
  rfl

theorem queued_reset_timer (slot : TimedSlot F) :
    slot.reset_timer.m_timer.queued .slot = slot.m_timer.queued .slot := by
  rw [reset_timer_eq]
  exact slot.m_timer.queued_cancel

-- Where there are actions, or another handler is still to run, the timer may be reset.
theorem rearmed_reset_timer (h : slot.m_actions = [] → 0 < slot.m_timer.queued .slot) :
    slot.reset_timer.Rearmed := by
  refine ⟨Nat.le_of_eq slot.armed_reset_timer, fun _ => .inl slot.armed_reset_timer, fun hempty => ?_⟩
  rw [reset_timer_eq] at hempty
  rw [queued_reset_timer]
  exact .inr (h hempty)

theorem Rearmed.push (h : slot.Rearmed) (action : PeriodicAction F) : (slot.push action).Rearmed := by
  rw [TimedSlot.push]
  split
  · exact rearmed_reset_timer (by simp)
  · rename_i hfull
    exact ⟨h.once, fun _ => h.full (List.isEmpty_iff.not.mp hfull), by simp⟩

theorem Rearmed.remove (h : slot.Rearmed) (id : Nat) : (slot.remove id).Rearmed := by
  rw [TimedSlot.remove]
  split
  · rename_i hempty
    have hcancelled := slot.m_timer.armed_cancel (w := Waiter.slot)
    refine ⟨hcancelled ▸ Nat.zero_le 1, fun hfull => ?_, fun _ => .inl hcancelled⟩
    exact absurd (List.isEmpty_iff.mp hempty) hfull
  · rename_i hfull
    refine ⟨h.once, fun _ => h.full fun hnil => hfull ?_, fun hempty => ?_⟩
    · simp [hnil]
    · exact absurd (List.isEmpty_iff.mpr hempty) hfull

theorem Rearmed.expire (h : slot.Rearmed) :
    { slot with m_timer := slot.m_timer.expire }.Rearmed := by
  have hexpired := slot.m_timer.armed_expire (w := Waiter.slot)
  have hqueued := slot.m_timer.queued_expire (w := Waiter.slot)
  refine ⟨hexpired ▸ Nat.zero_le 1, fun hfull => .inr ?_, fun _ => .inl hexpired⟩
  have hfull := h.full hfull
  rw [hqueued]
  omega

theorem Rearmed.handler (h : slot.Rearmed) {i : Nat} (hallowed : slot.ResetsFull (.handler i))
    (hstep : slot.handler i = some slot') : slot'.Rearmed := by
  obtain ⟨completion, m_timer, hcomplete, rfl⟩ := handler_some hstep
  have hi := (SteadyTimer.complete_some hcomplete).1
  have harmed : m_timer.armed .slot = _ := SteadyTimer.armed_of_complete hcomplete
  have hqueued := SteadyTimer.queued_of_complete (w := .slot) hcomplete
  split
  · rename_i hslot
    rw [if_pos hslot] at hqueued
    refine rearmed_reset_timer fun hempty => ?_
    have hothers := hallowed (hi.trans (congrArg some hslot)) (List.isEmpty_iff.mpr hempty)
    change 0 < m_timer.queued .slot
    omega
  · rename_i hother
    rw [if_neg hother, Nat.add_zero] at hqueued
    constructor <;> rw [harmed]
    · exact h.once
    · rw [hqueued]
      exact h.full
    · rw [hqueued]
      exact h.empty

theorem Rearmed.step {e : SlotEvent F} (h : slot.Rearmed) (hallowed : slot.ResetsFull e)
    (hstep : slot.step e = some slot') : slot'.Rearmed := by
  cases e with
  | push action => exact Option.some.inj hstep ▸ h.push action
  | set_active id active =>
      obtain rfl := Option.some.inj hstep
      exact ⟨h.once, fun hfull => h.full fun hnil => hfull (by rw [set_active, hnil]; rfl),
        fun hempty => h.empty (List.map_eq_nil_iff.mp hempty)⟩
  | remove id => exact Option.some.inj hstep ▸ h.remove id
  | expire => exact Option.some.inj hstep ▸ h.expire
  | handler i => exact h.handler hallowed hstep

-- The handler that comes last sets the timer of an empty slot.
theorem not_armed {e : SlotEvent F} (hallowed : ¬slot.ResetsFull e)
    (hstep : slot.step e = some slot') : ¬slot'.Armed := by
  cases e with
  | handler i =>
      obtain ⟨completion, m_timer, hcomplete, rfl⟩ := handler_some hstep
      have hqueued := SteadyTimer.queued_of_complete (w := .slot) hcomplete
      obtain ⟨hi, -⟩ := SteadyTimer.complete_some hcomplete
      obtain ⟨hslot, hempty, hlast⟩ : slot.m_timer.completions[i]? = some (.slot, true) ∧
          slot.m_actions.isEmpty = true ∧ ¬1 < slot.m_timer.queued .slot := by
        simpa only [ResetsFull, Classical.not_imp] using hallowed
      have hcompletion := Option.some.inj (hi.symm.trans hslot)
      rw [if_pos hcompletion] at hqueued ⊢
      intro harmed
      have hzero := harmed (by rw [queued_reset_timer]; change m_timer.queued .slot = 0; omega)
      rw [armed_reset_timer, reset_timer_eq, if_pos hempty] at hzero
      exact absurd hzero (by decide)
  | _ => exact absurd trivial hallowed

-- The timer runs for a slot exactly while that has actions, throughout a run in which the slot
-- has some whenever its last handler that is still to run is called, and in no other run.
theorem armed_throughout_iff (interval : Nat)
    (hrun : Run step Always (make interval) trace t) :
    Throughout Armed step (make interval) trace ↔ Run step ResetsFull (make interval) trace t :=
  hrun.throughout_iff ⟨Nat.zero_le 1, fun hfull => absurd rfl hfull, fun _ => .inl rfl⟩
    Rearmed.armed Rearmed.step fun _ => not_armed

-- The slot's only action goes when the expiry has been handled, or just after its own handler and
-- before the slot's one.
def retired : List (SlotEvent Unit) :=
  [.push ⟨0, (), true⟩, .expire, .handler 0, .handler 0, .remove 0, .handler 0, .handler 0]

def surprised : List (SlotEvent Unit) :=
  [.push ⟨0, (), true⟩, .expire, .handler 0, .remove 0, .handler 0]

theorem retired_armed : ∃ t, Run step Always (make 1) retired t ∧
    Throughout Armed step (make 1) retired := by
  have hrun : Run step ResetsFull (make 1) retired _ := .of_foldlM rfl
  exact ⟨_, hrun.always, (armed_throughout_iff 1 hrun.always).mpr hrun⟩

theorem surprised_not_armed : ∃ t, Run step Always (make 1) surprised t ∧
    t.m_actions.length = 0 ∧ t.m_timer = ⟨[.slot], []⟩ ∧ ¬t.Armed :=
  ⟨_, .of_foldlM rfl, rfl, rfl, by decide⟩

end TimedSlot

end RoboCrisp.Util
