import RoboCrisp.Util.PeriodicScheduleSlot.Pending

namespace RoboCrisp.Util

open RoboCrisp.Transition

-- The periodic actions of a Scheduler, whose slots have their timers. `intervals` gives for each
-- action that there has been the interval of its slot. In the io_service there are the posted
-- calls of remove().
structure TimedScheduler (F : Type) where
  m_slots : List (TimedSlot F)
  intervals : List Nat
  io_service : List Nat

-- `retained` says whether a shared_ptr of the user's keeps the action alive.
inductive SchedulerEvent (F : Type)
  | schedule (interval : Nat) (function : F)
  | cancel (id : Nat)
  | pause (id : Nat)
  | unpause (id : Nat)
  | removal (i : Nat) (retained : Bool)
  | expire (interval : Nat)
  | handler (interval i : Nat)

namespace TimedScheduler

variable {F : Type}

def empty : TimedScheduler F := ⟨[], [], []⟩

-- The slots after schedule() has looked for one with that interval.
def find_slot (interval : Nat) (slots : List (TimedSlot F)) : List (TimedSlot F) :=
  if slots.any fun slot => slot.m_interval = interval then slots
  else slots ++ [TimedSlot.make interval]

def update_slot (interval : Nat) (e : SlotEvent F) : List (TimedSlot F) → Option (List (TimedSlot F))
  | [] => none
  | slot :: rest =>
      if slot.m_interval = interval then (slot.step e).map fun slot => slot :: rest
      else (update_slot interval e rest).map fun rest => slot :: rest

-- What happens to an action, in its slot.
def update_action (s : TimedScheduler F) (id : Nat) (e : SlotEvent F) : Option (TimedScheduler F) := do
  let interval ← s.intervals[id]?
  let m_slots ← update_slot interval e s.m_slots
  return { s with m_slots }

def schedule (s : TimedScheduler F) (interval : Nat) (function : F) : Option (TimedScheduler F) := do
  let action : PeriodicAction F := ⟨s.intervals.length, function, true⟩
  let m_slots ← update_slot interval (.push action) (find_slot interval s.m_slots)
  return { s with m_slots, intervals := s.intervals ++ [interval] }

def cancel (s : TimedScheduler F) (id : Nat) : Option (TimedScheduler F) := do
  let s ← s.update_action id (.set_active id false)
  return { s with io_service := s.io_service ++ [id] }

-- The weak_ptr has expired unless the action is in a slot or kept by somebody else.
def removal (s : TimedScheduler F) (i : Nat) (retained : Bool) : Option (TimedScheduler F) := do
  let id ← s.io_service[i]?
  let s := { s with io_service := s.io_service.eraseIdx i }
  if (∃ slot ∈ s.m_slots, slot.Lists id) ∨ retained then s.update_action id (.remove id) else some s

def update_timer (s : TimedScheduler F) (interval : Nat) (e : SlotEvent F) : Option (TimedScheduler F) := do
  let m_slots ← update_slot interval e s.m_slots
  return { s with m_slots }

def step (s : TimedScheduler F) : SchedulerEvent F → Option (TimedScheduler F)
  | .schedule interval function => s.schedule interval function
  | .cancel id => s.cancel id
  | .pause id => s.update_action id (.set_active id false)
  | .unpause id => s.update_action id (.set_active id true)
  | .removal i retained => s.removal i retained
  | .expire interval => s.update_timer interval .expire
  | .handler interval i => s.update_timer interval (.handler i)

variable {s s' : TimedScheduler F} {slot slot' : TimedSlot F} {slots slots' : List (TimedSlot F)}
  {interval : Nat} {e : SlotEvent F}

-- What a step does to the slots.
inductive Steps (s : TimedScheduler F) : SchedulerEvent F → TimedScheduler F → Prop
  | schedule {interval : Nat} {function : F} {slots : List (TimedSlot F)}
      (hupdate : update_slot interval (.push ⟨s.intervals.length, function, true⟩)
        (find_slot interval s.m_slots) = some slots) :
      Steps s (.schedule interval function)
        { s with m_slots := slots, intervals := s.intervals ++ [interval] }
  | remove {i id interval : Nat} {retained : Bool} {slots : List (TimedSlot F)}
      (hi : s.io_service[i]? = some id)
      (hinterval : s.intervals[id]? = some interval)
      (hupdate : update_slot interval (.remove id) s.m_slots = some slots) :
      Steps s (.removal i retained)
        { s with m_slots := slots, io_service := s.io_service.eraseIdx i }
  | expired {i id : Nat} {retained : Bool} (hi : s.io_service[i]? = some id)
      (hexpired : ∀ slot ∈ s.m_slots, ¬slot.Lists id) :
      Steps s (.removal i retained) { s with io_service := s.io_service.eraseIdx i }
  | other {event : SchedulerEvent F} {e : SlotEvent F} {interval : Nat} {slots : List (TimedSlot F)}
      {io_service : List Nat}
      (hevent : ∀ i retained, event ≠ .removal i retained)
      (he : (∃ id active, e = .set_active id active) ∨ e = .expire ∨ ∃ i, e = .handler i)
      (hupdate : update_slot interval e s.m_slots = some slots) :
      Steps s event { s with m_slots := slots, io_service := io_service }

theorem update_action_some {id : Nat} (h : s.update_action id e = some s') : ∃ interval slots,
    s.intervals[id]? = some interval ∧ update_slot interval e s.m_slots = some slots ∧
      s' = { s with m_slots := slots } := by
  obtain ⟨interval, hinterval, h⟩ := Option.bind_eq_some_iff.mp h
  obtain ⟨slots, hupdate, h⟩ := Option.bind_eq_some_iff.mp h
  exact ⟨interval, slots, hinterval, hupdate, (Option.some.inj h).symm⟩

theorem step_steps {event : SchedulerEvent F} (hstep : s.step event = some s') : s.Steps event s' := by
  cases event with
  | schedule interval function =>
      obtain ⟨slots, hupdate, hstep⟩ := Option.bind_eq_some_iff.mp hstep
      obtain rfl := Option.some.inj hstep
      exact .schedule hupdate
  | cancel id =>
      obtain ⟨middle, hmiddle, hstep⟩ := Option.bind_eq_some_iff.mp hstep
      obtain ⟨interval, slots, -, hupdate, rfl⟩ := update_action_some hmiddle
      obtain rfl := Option.some.inj hstep
      exact .other (fun _ _ => nofun) (.inl ⟨_, _, rfl⟩) hupdate
  | pause id | unpause id =>
      obtain ⟨interval, slots, -, hupdate, rfl⟩ := update_action_some hstep
      exact .other (fun _ _ => nofun) (.inl ⟨_, _, rfl⟩) hupdate
  | removal i retained =>
      obtain ⟨id, hi, hstep⟩ := Option.bind_eq_some_iff.mp hstep
      simp only at hstep
      split at hstep
      · obtain ⟨interval, slots, hinterval, hupdate, rfl⟩ := update_action_some hstep
        exact .remove hi hinterval hupdate
      · rename_i hexpired
        obtain rfl := Option.some.inj hstep
        exact .expired hi fun slot hmem hlists => hexpired (.inl ⟨slot, hmem, hlists⟩)
  | expire interval =>
      obtain ⟨slots, hupdate, hstep⟩ := Option.bind_eq_some_iff.mp hstep
      obtain rfl := Option.some.inj hstep
      exact .other (fun _ _ => nofun) (.inr (.inl rfl)) hupdate
  | handler interval i =>
      obtain ⟨slots, hupdate, hstep⟩ := Option.bind_eq_some_iff.mp hstep
      obtain rfl := Option.some.inj hstep
      exact .other (fun _ _ => nofun) (.inr (.inr ⟨i, rfl⟩)) hupdate

-- The first slot with the interval takes the step, and the others stay.
theorem update_slot_cons (h : update_slot interval e (slot :: slots) = some slots') :
    (slot.m_interval = interval ∧ ∃ later, slot.step e = some later ∧ slots' = later :: slots) ∨
      (slot.m_interval ≠ interval ∧
        ∃ later, update_slot interval e slots = some later ∧ slots' = slot :: later) := by
  rw [update_slot] at h
  split at h
  · rename_i hinterval
    obtain ⟨later, hstep, rfl⟩ := Option.map_eq_some_iff.mp h
    exact .inl ⟨hinterval, later, hstep, rfl⟩
  · rename_i hother
    obtain ⟨later, hrest, rfl⟩ := Option.map_eq_some_iff.mp h
    exact .inr ⟨hother, later, hrest, rfl⟩

theorem map_interval_update_slot (h : update_slot interval e slots = some slots') :
    slots'.map (fun slot => slot.m_interval) = slots.map fun slot => slot.m_interval := by
  induction slots generalizing slots' with
  | nil => exact absurd h nofun
  | cons slot rest ih =>
      obtain ⟨-, later, hstep, rfl⟩ | ⟨-, later, hrest, rfl⟩ := update_slot_cons h
      · rw [List.map_cons, List.map_cons, (TimedSlot.step_frame hstep).1]
      · rw [List.map_cons, List.map_cons, ih hrest]

theorem mem_update_slot (h : update_slot interval e slots = some slots') (hmem : slot' ∈ slots') :
    slot' ∈ slots ∨ ∃ slot ∈ slots, slot.m_interval = interval ∧ slot.step e = some slot' := by
  induction slots generalizing slots' with
  | nil => exact absurd h nofun
  | cons slot rest ih =>
      obtain ⟨hinterval, later, hstep, rfl⟩ | ⟨-, later, hrest, rfl⟩ := update_slot_cons h
      · rcases List.mem_cons.mp hmem with rfl | hmem
        · exact .inr ⟨slot, List.mem_cons_self, hinterval, hstep⟩
        · exact .inl (List.mem_cons_of_mem _ hmem)
      · rcases List.mem_cons.mp hmem with rfl | hmem
        · exact .inl List.mem_cons_self
        · rcases ih hrest hmem with hmem | ⟨old, hold, hsteps⟩
          · exact .inl (List.mem_cons_of_mem _ hmem)
          · exact .inr ⟨old, List.mem_cons_of_mem _ hold, hsteps⟩

-- No two slots have the same interval, so the slot that is found is the one there is.
theorem step_mem_update_slot (h : update_slot interval e slots = some slots')
    (hnodup : (slots.map fun slot => slot.m_interval).Nodup) (hmem : slot ∈ slots)
    (hinterval : slot.m_interval = interval) : ∃ slot' ∈ slots', slot.step e = some slot' := by
  induction slots generalizing slots' with
  | nil => exact absurd h nofun
  | cons first rest ih =>
      obtain ⟨hfirst, hnodup⟩ := List.nodup_cons.mp hnodup
      obtain ⟨hfound, later, hstep, rfl⟩ | ⟨hother, later, hrest, rfl⟩ := update_slot_cons h
      · rcases List.mem_cons.mp hmem with rfl | hmem
        · exact ⟨later, List.mem_cons_self, hstep⟩
        · exact absurd (List.mem_map.mpr ⟨slot, hmem, hinterval.trans hfound.symm⟩) hfirst
      · rcases List.mem_cons.mp hmem with rfl | hmem
        · exact absurd hinterval hother
        · obtain ⟨slot', hlater, hstep⟩ := ih hrest hnodup hmem
          exact ⟨slot', List.mem_cons_of_mem _ hlater, hstep⟩

theorem mem_find_slot (hmem : slot ∈ find_slot interval slots) :
    slot ∈ slots ∨ slot = TimedSlot.make interval := by
  rw [find_slot] at hmem
  split at hmem
  · exact .inl hmem
  · exact (List.mem_append.mp hmem).imp_right List.mem_singleton.mp

theorem nodup_find_slot (hnodup : (slots.map fun slot => slot.m_interval).Nodup) :
    ((find_slot interval slots).map fun slot => slot.m_interval).Nodup := by
  rw [find_slot]
  split
  · exact hnodup
  · rename_i hnew
    rw [List.map_append, List.map_singleton, ← List.concat_eq_append]
    refine hnodup.concat fun hmem => hnew ?_
    obtain ⟨slot, hmem, hinterval⟩ := List.mem_map.mp hmem
    exact List.any_eq_true.mpr ⟨slot, hmem, decide_eq_true hinterval⟩

-- Each action that there is was put in the slot for its interval, of which there is only one.
structure Placed (s : TimedScheduler F) : Prop where
  nodup : (s.m_slots.map fun slot => slot.m_interval).Nodup
  listed : ∀ slot ∈ s.m_slots, ∀ id, slot.Lists id → s.intervals[id]? = some slot.m_interval

theorem empty_placed : (empty : TimedScheduler F).Placed := ⟨.nil, nofun⟩

theorem Placed.find_slot (h : s.Placed) (interval : Nat) :
    { s with m_slots := find_slot interval s.m_slots }.Placed := by
  refine ⟨nodup_find_slot h.nodup, fun slot hmem => ?_⟩
  rcases mem_find_slot hmem with hmem | rfl
  · exact h.listed slot hmem
  · exact fun _ hlists => absurd hlists nofun

theorem Placed.push (h : s.Placed) {function : F} {active : Bool}
    (hupdate : update_slot interval (.push ⟨s.intervals.length, function, active⟩) s.m_slots =
      some slots) :
    { s with m_slots := slots, intervals := s.intervals ++ [interval] }.Placed := by
  have hkept {id other : Nat} (hid : s.intervals[id]? = some other) :
      (s.intervals ++ [interval])[id]? = some other := by
    obtain ⟨hlt, -⟩ := List.getElem?_eq_some_iff.mp hid
    rw [List.getElem?_append_left hlt, hid]
  refine ⟨map_interval_update_slot hupdate ▸ h.nodup, fun slot hmem id hlists => ?_⟩
  rcases mem_update_slot hupdate hmem with hmem | ⟨old, hold, rfl, hstep⟩
  · exact hkept (h.listed slot hmem id hlists)
  · obtain ⟨hinterval, hlist⟩ := TimedSlot.step_frame hstep
    rw [hinterval]
    rcases hlist id hlists with hlists | ⟨action, hpush, rfl⟩
    · exact hkept (h.listed old hold id hlists)
    · obtain rfl := SlotEvent.push.inj hpush
      exact List.getElem?_concat_length

theorem Placed.update_slot (h : s.Placed) {io_service : List Nat}
    (hpush : ∀ action, e ≠ .push action) (hupdate : update_slot interval e s.m_slots = some slots) :
    { s with m_slots := slots, io_service := io_service }.Placed := by
  refine ⟨map_interval_update_slot hupdate ▸ h.nodup, fun slot hmem id hlists => ?_⟩
  rcases mem_update_slot hupdate hmem with hmem | ⟨old, hold, -, hstep⟩
  · exact h.listed slot hmem id hlists
  · obtain ⟨hinterval, hlist⟩ := TimedSlot.step_frame hstep
    rw [hinterval]
    rcases hlist id hlists with hlists | ⟨action, he, -⟩
    · exact h.listed old hold id hlists
    · exact absurd he (hpush action)

theorem Placed.step {event : SchedulerEvent F} (h : s.Placed) (hstep : s.step event = some s') :
    s'.Placed := by
  cases step_steps hstep with
  | schedule hupdate => exact (h.find_slot _).push hupdate
  | remove _ _ hupdate =>
      refine h.update_slot ?_ hupdate
      exact fun _ => nofun
  | expired => exact { h with }
  | other _ he hupdate =>
      refine h.update_slot ?_ hupdate
      rcases he with ⟨_, _, rfl⟩ | rfl | ⟨_, rfl⟩ <;> exact fun _ => nofun

end TimedScheduler

end RoboCrisp.Util
