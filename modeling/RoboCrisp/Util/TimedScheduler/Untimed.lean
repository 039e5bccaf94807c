import RoboCrisp.Util.TimedScheduler

namespace RoboCrisp.Util

open RoboCrisp.Transition

variable {F : Type}

-- What a step of a slot makes of its actions.
def SlotEvent.actions (actions : List (PeriodicAction F)) : SlotEvent F → List (PeriodicAction F)
  | .push action => action :: actions
  | .set_active id active =>
      actions.map fun action => if action.id = id then { action with active } else action
  | .remove id => actions.filter fun action => action.id ≠ id
  | .expire | .handler _ => actions

theorem TimedSlot.step_actions {slot slot' : TimedSlot F} {e : SlotEvent F}
    (hstep : slot.step e = some slot') :
    slot'.toPeriodicScheduleSlot = ⟨slot.m_interval, e.actions slot.m_actions⟩ := by
  have hactions : slot'.m_actions = e.actions slot.m_actions := by
    cases e with
    | push action => exact Option.some.inj hstep ▸ m_actions_push action
    | set_active | expire => exact Option.some.inj hstep ▸ rfl
    | remove id => exact Option.some.inj hstep ▸ m_actions_remove id
    | handler i =>
        obtain ⟨completion, m_timer, -, rfl⟩ := handler_some hstep
        split
        · rw [reset_timer_eq]
          rfl
        · rfl
  rw [← (step_frame hstep).1, ← hactions]

namespace TimedScheduler

variable {s s' t : TimedScheduler F} {slots slots' : List (TimedSlot F)} {interval : Nat}
  {e : SlotEvent F}

-- The same scheduler without its timers.
def untimed (s : TimedScheduler F) : Scheduler F :=
  ⟨s.m_slots.map fun slot => slot.toPeriodicScheduleSlot, [], s.intervals.length⟩

-- What a step is for a scheduler that has no timers.
def untimed_step (s : TimedScheduler F) (scheduler : Scheduler F) : SchedulerEvent F → Scheduler F
  | .schedule interval function => (scheduler.schedule interval function).1
  | .cancel id | .pause id => scheduler.deactivate id
  | .unpause id => scheduler.update_slots fun actions =>
      actions.map fun action => if action.id = id then { action with active := true } else action
  | .removal i _ => match s.io_service[i]? with
      | some id => scheduler.remove_periodic id
      | none => scheduler
  | .expire _ | .handler _ _ => scheduler

theorem push_untimed {action : PeriodicAction F}
    (h : update_slot interval (.push action) (find_slot interval slots) = some slots') :
    slots'.map (fun slot => slot.toPeriodicScheduleSlot) =
      PeriodicScheduleSlot.emplace interval action (slots.map fun slot => slot.toPeriodicScheduleSlot) := by
  induction slots generalizing slots' with
  | nil =>
      obtain ⟨later, hstep, rfl⟩ := Option.map_eq_some_iff.mp ((if_pos rfl).symm.trans h)
      rw [List.map_cons, TimedSlot.step_actions hstep]
      rfl
  | cons slot rest ih =>
      rw [List.map_cons, PeriodicScheduleSlot.emplace]
      by_cases hinterval : slot.m_interval = interval
      · have hfound : find_slot interval (slot :: rest) = slot :: rest := by
          rw [find_slot, if_pos (by simp [hinterval])]
        rw [hfound, update_slot, if_pos hinterval] at h
        obtain ⟨later, hstep, rfl⟩ := Option.map_eq_some_iff.mp h
        rw [if_pos hinterval, List.map_cons, TimedSlot.step_actions hstep]
        rfl
      · have hfound : find_slot interval (slot :: rest) = slot :: find_slot interval rest := by
          rw [find_slot, find_slot, List.any_cons, decide_eq_false hinterval, Bool.false_or]
          split <;> rfl
        rw [hfound, update_slot, if_neg hinterval] at h
        obtain ⟨later, hrest, rfl⟩ := Option.map_eq_some_iff.mp h
        rw [if_neg hinterval, List.map_cons, ih hrest]

-- The action that the step is about is in no other slot.
theorem update_slot_untimed (h : update_slot interval e slots = some slots')
    (hnodup : (slots.map fun slot => slot.m_interval).Nodup)
    (hothers : ∀ slot ∈ slots, slot.m_interval ≠ interval → e.actions slot.m_actions = slot.m_actions) :
    slots'.map (fun slot => slot.toPeriodicScheduleSlot) =
      slots.map fun slot => ⟨slot.m_interval, e.actions slot.m_actions⟩ := by
  induction slots generalizing slots' with
  | nil => exact absurd h nofun
  | cons slot rest ih =>
      obtain ⟨hfirst, hnodup⟩ := List.nodup_cons.mp hnodup
      obtain ⟨hinterval, later, hstep, rfl⟩ | ⟨hother, later, hrest, rfl⟩ := update_slot_cons h
      · rw [List.map_cons, List.map_cons, TimedSlot.step_actions hstep]
        congr 1
        refine List.map_congr_left fun other hmem => ?_
        rw [hothers other (List.mem_cons_of_mem _ hmem)]
        exact fun hsame => hfirst (List.mem_map.mpr ⟨other, hmem, hsame.trans hinterval.symm⟩)
      · rw [List.map_cons, List.map_cons, hothers slot List.mem_cons_self hother,
          ih hrest hnodup fun other hmem => hothers other (List.mem_cons_of_mem _ hmem)]

theorem Placed.update_action_untimed (h : s.Placed) {id : Nat}
    (hothers : ∀ actions : List (PeriodicAction F), (∀ action ∈ actions, action.id ≠ id) →
      e.actions actions = actions) (hupdate : s.update_action id e = some s') :
    s'.untimed = s.untimed.update_slots fun actions => e.actions actions := by
  obtain ⟨interval, slots, hinterval, hslots, rfl⟩ := update_action_some hupdate
  rw [untimed, update_slot_untimed hslots h.nodup, Scheduler.update_slots, untimed, List.map_map]
  · rfl
  · intro slot hmem hother
    refine hothers _ fun action haction hid => hother ?_
    exact Option.some.inj ((h.listed slot hmem id ⟨action, haction, hid⟩).symm.trans hinterval)

theorem actions_set_active {id : Nat} {active : Bool} {actions : List (PeriodicAction F)}
    (h : ∀ action ∈ actions, action.id ≠ id) :
    (SlotEvent.set_active id active).actions actions = actions := by
  refine (List.map_congr_left fun action hmem => ?_).trans (List.map_id actions)
  exact if_neg (h action hmem)

theorem actions_remove {id : Nat} {actions : List (PeriodicAction F)}
    (h : ∀ action ∈ actions, action.id ≠ id) : (SlotEvent.remove id).actions actions = actions :=
  List.filter_eq_self.mpr fun action hmem => decide_eq_true (h action hmem)

theorem Placed.update_timer_untimed (h : s.Placed)
    (htimer : ∀ actions : List (PeriodicAction F), e.actions actions = actions)
    (hupdate : s.update_timer interval e = some s') : s'.untimed = s.untimed := by
  obtain ⟨slots, hslots, hstep⟩ := Option.bind_eq_some_iff.mp hupdate
  obtain rfl := Option.some.inj hstep
  rw [untimed, update_slot_untimed hslots h.nodup fun _ _ _ => htimer _, untimed]
  simp only [htimer]

-- Without its timers, the scheduler does what one does that has none.
theorem Placed.step_untimed {event : SchedulerEvent F} (h : s.Placed)
    (hstep : s.step event = some s') : s'.untimed = s.untimed_step s.untimed event := by
  cases event with
  | schedule interval function =>
      obtain ⟨slots, hupdate, hstep⟩ := Option.bind_eq_some_iff.mp hstep
      obtain rfl := Option.some.inj hstep
      rw [untimed, push_untimed hupdate, List.length_append]
      rfl
  | cancel id =>
      obtain ⟨middle, hmiddle, hstep⟩ := Option.bind_eq_some_iff.mp hstep
      obtain rfl := Option.some.inj hstep
      have hinactive := h.update_action_untimed (fun _ => actions_set_active) hmiddle
      exact hinactive
  | pause id | unpause id => exact h.update_action_untimed (fun _ => actions_set_active) hstep
  | removal i retained =>
      obtain ⟨id, hi, hstep⟩ := Option.bind_eq_some_iff.mp hstep
      have hplaced : { s with io_service := s.io_service.eraseIdx i }.Placed := { h with }
      have hremoval : s.untimed_step s.untimed (.removal i retained) = s.untimed.remove_periodic id := by
        rw [untimed_step, hi]
      rw [hremoval]
      simp only at hstep
      split at hstep
      · exact hplaced.update_action_untimed (fun _ => actions_remove) hstep
      · rename_i hexpired
        obtain rfl := Option.some.inj hstep
        rw [Scheduler.remove_periodic, Scheduler.update_slots, untimed, untimed, List.map_map]
        congr 1
        refine List.map_congr_left fun slot hmem => ?_
        have hlists : ∀ action ∈ slot.m_actions, action.id ≠ id :=
          fun action haction hid => hexpired (.inl ⟨slot, hmem, action, haction, hid⟩)
        exact congrArg (PeriodicScheduleSlot.mk slot.m_interval) (actions_remove hlists).symm
  | expire interval | handler interval i => exact h.update_timer_untimed (fun _ => rfl) hstep

end TimedScheduler

end RoboCrisp.Util
