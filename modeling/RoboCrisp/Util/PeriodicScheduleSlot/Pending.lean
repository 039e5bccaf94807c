import RoboCrisp.Util.PeriodicScheduleSlot

namespace RoboCrisp.Util

namespace TimedSlot

variable {F : Type} {slot slot' : TimedSlot F}

def Lists (slot : TimedSlot F) (id : Nat) : Prop := ∃ action ∈ slot.m_actions, action.id = id

instance (slot : TimedSlot F) (id : Nat) : Decidable (slot.Lists id) :=
  inferInstanceAs (Decidable (∃ action ∈ _, _))

-- Whatever handler is still to be called for an action, the slot has that action.
def PendsListed (slot : TimedSlot F) : Prop :=
  ∀ id, slot.m_timer.Pends (.action id) → slot.Lists id

-- An action goes without a handler that is still to run for an expiry, and if it waits for the
-- next one, it takes the timer with it.
def RemovesQuiet (slot : TimedSlot F) (id : Nat) : Prop :=
  slot.Lists id → (.action id, true) ∉ slot.m_timer.completions ∧
    (.action id ∈ slot.m_timer.waits → ∀ action ∈ slot.m_actions, action.id = id)

instance (slot : TimedSlot F) (id : Nat) : Decidable (slot.RemovesQuiet id) :=
  inferInstanceAs (Decidable (_ → _ ∧ (_ → _)))

-- So each handler that is called with success leads to an action, and calls its function if
-- that is active.
theorem PendsListed.calls (h : slot.PendsListed) {i id : Nat}
    (hi : slot.m_timer.completions[i]? = some (.action id, true)) : ∃ action ∈ slot.m_actions,
      action.id = id ∧ slot.calls i = if action.active then some action.function else none := by
  obtain ⟨listed, hlisted, hid⟩ := h id (.inr (List.mem_of_getElem? hi))
  have hfound : (slot.m_actions.find? fun action => action.id = id).isSome = true :=
    List.find?_isSome.mpr ⟨listed, hlisted, decide_eq_true hid⟩
  obtain ⟨action, haction⟩ := Option.isSome_iff_exists.mp hfound
  have haction_id : action.id = id := by simpa using List.find?_some haction
  refine ⟨action, List.mem_of_find?_eq_some haction, haction_id, ?_⟩
  simp [TimedSlot.calls, hi, haction]

theorem lists_remove {id x : Nat} : (slot.remove id).Lists x ↔ slot.Lists x ∧ x ≠ id := by
  simp only [Lists, m_actions_remove, List.mem_filter, decide_eq_true_eq]
  constructor
  · rintro ⟨action, ⟨hmem, hne⟩, rfl⟩
    exact ⟨⟨action, hmem, rfl⟩, hne⟩
  · rintro ⟨⟨action, hmem, rfl⟩, hne⟩
    exact ⟨action, ⟨hmem, hne⟩, rfl⟩

theorem lists_set_active {id x : Nat} {active : Bool} :
    (slot.set_active id active).Lists x ↔ slot.Lists x := by
  simp only [Lists, set_active, List.mem_map]
  constructor
  · rintro ⟨_, ⟨action, hmem, rfl⟩, rfl⟩
    refine ⟨action, hmem, ?_⟩
    split <;> rfl
  · rintro ⟨action, hmem, rfl⟩
    refine ⟨_, ⟨action, hmem, rfl⟩, ?_⟩
    split <;> rfl

theorem pends_remove {id x : Nat} : (slot.remove id).m_timer.Pends (.action x) ↔
    if ∀ action ∈ slot.m_actions, action.id = id then (.action x, true) ∈ slot.m_timer.completions
    else slot.m_timer.Pends (.action x) := by
  have hempty : (slot.m_actions.filter fun action => action.id ≠ id).isEmpty = true ↔
      ∀ action ∈ slot.m_actions, action.id = id := by
    simp
  rw [TimedSlot.remove]
  by_cases hall : ∀ action ∈ slot.m_actions, action.id = id
  · rw [if_pos (hempty.mpr hall), if_pos hall]
    exact slot.m_timer.pends_cancel
  · rw [if_neg (hempty.not.mpr hall), if_neg hall]

theorem pends_reset_timer {id : Nat} (h : slot.reset_timer.m_timer.Pends (.action id)) :
    slot.Lists id ∨ (.action id, true) ∈ slot.m_timer.completions := by
  rw [reset_timer_eq] at h
  rcases h with h | h
  · exact .inl (action_mem_waiters h)
  · exact .inr (slot.m_timer.pends_cancel.mp (.inr h))

theorem PendsListed.reset_timer (h : slot.PendsListed) : slot.reset_timer.PendsListed := by
  intro id hpends
  rw [reset_timer_eq]
  rcases pends_reset_timer hpends with hlists | hqueued
  · exact hlists
  · exact h id (.inr hqueued)

theorem PendsListed.push (h : slot.PendsListed) (action : PeriodicAction F) :
    (slot.push action).PendsListed := by
  have hnew : { slot with m_actions := action :: slot.m_actions }.PendsListed := by
    intro id hpends
    obtain ⟨old, hmem, hid⟩ := h id hpends
    exact ⟨old, List.mem_cons_of_mem _ hmem, hid⟩
  rw [TimedSlot.push]
  split
  · exact hnew.reset_timer
  · exact hnew

theorem PendsListed.remove (h : slot.PendsListed) {id : Nat} (hquiet : slot.RemovesQuiet id) :
    (slot.remove id).PendsListed := by
  intro x hpends
  rw [pends_remove] at hpends
  rw [lists_remove]
  split at hpends
  · rename_i hall
    obtain ⟨action, hmem, rfl⟩ := h x (.inr hpends)
    have hid := hall action hmem
    exact absurd (hid ▸ hpends) (hquiet ⟨action, hmem, hid⟩).1
  · rename_i hothers
    refine ⟨h x hpends, ?_⟩
    rintro rfl
    obtain ⟨hqueued, hwaits⟩ := hquiet (h x hpends)
    exact hothers (hwaits (hpends.resolve_right hqueued))

-- What was still to run, and has not been aborted, runs for an action that is gone.
theorem not_pendsListed_remove {id : Nat} (hquiet : ¬slot.RemovesQuiet id) :
    ¬(slot.remove id).PendsListed := by
  intro hpends
  have hgone : ¬(slot.remove id).m_timer.Pends (.action id) :=
    fun h => (lists_remove.mp (hpends id h)).2 rfl
  rw [pends_remove] at hgone
  refine hquiet fun _ => ?_
  split at hgone
  · rename_i hall
    exact ⟨hgone, fun _ => hall⟩
  · exact ⟨fun h => hgone (.inr h), fun h => absurd (.inl h) hgone⟩

theorem PendsListed.handler (h : slot.PendsListed) {i : Nat} (hstep : slot.handler i = some slot') :
    slot'.PendsListed := by
  obtain ⟨completion, m_timer, hcomplete, rfl⟩ := handler_some hstep
  have hlater : { slot with m_timer }.PendsListed :=
    fun id hpends => h id (SteadyTimer.pends_of_complete hcomplete hpends)
  split
  · exact hlater.reset_timer
  · exact hlater

theorem PendsListed.step {e : SlotEvent F} (h : slot.PendsListed)
    (hallowed : ∀ id, e = .remove id → slot.RemovesQuiet id) (hstep : slot.step e = some slot') :
    slot'.PendsListed := by
  cases e with
  | push action => exact Option.some.inj hstep ▸ h.push action
  | set_active id active =>
      obtain rfl := Option.some.inj hstep
      exact fun x hpends => lists_set_active.mpr (h x hpends)
  | remove id => exact Option.some.inj hstep ▸ h.remove (hallowed id rfl)
  | expire =>
      obtain rfl := Option.some.inj hstep
      exact fun id hpends => h id (slot.m_timer.pends_expire.mp hpends)
  | handler i => exact h.handler hstep

-- No step moves the slot, and only push() adds an action.
theorem step_frame {e : SlotEvent F} (hstep : slot.step e = some slot') :
    slot'.m_interval = slot.m_interval ∧
      ∀ id, slot'.Lists id → slot.Lists id ∨ ∃ action, e = .push action ∧ action.id = id := by
  cases e with
  | push action =>
      obtain rfl := Option.some.inj hstep
      refine ⟨?_, ?_⟩
      · rw [TimedSlot.push]
        split <;> rfl
      · rintro id ⟨old, hmem, hid⟩
        rw [m_actions_push] at hmem
        rcases List.mem_cons.mp hmem with rfl | hmem
        · exact .inr ⟨_, rfl, hid⟩
        · exact .inl ⟨old, hmem, hid⟩
  | set_active id active =>
      obtain rfl := Option.some.inj hstep
      exact ⟨rfl, fun x hlists => .inl (lists_set_active.mp hlists)⟩
  | remove id =>
      obtain rfl := Option.some.inj hstep
      refine ⟨?_, fun x hlists => .inl (lists_remove.mp hlists).1⟩
      rw [TimedSlot.remove]
      split <;> rfl
  | expire =>
      obtain rfl := Option.some.inj hstep
      exact ⟨rfl, fun _ => .inl⟩
  | handler i =>
      obtain ⟨completion, m_timer, -, rfl⟩ := handler_some hstep
      split
      · rw [reset_timer_eq]
        exact ⟨rfl, fun _ => .inl⟩
      · exact ⟨rfl, fun _ => .inl⟩

end TimedSlot

end RoboCrisp.Util
