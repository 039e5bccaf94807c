import RoboCrisp.Comms.Node.Halting.Lemmas

namespace RoboCrisp.Comms

open RoboCrisp.Util RoboCrisp.Transition

-- The loop has seen that the node is not stopped, and does not count as a waiter yet.
def SendStage.comes {α : Type} : SendStage α → Bool
  | .next .entered => true
  | .next .unaborted => true
  | _ => false

-- A call that goes on has set m_stopped.
def HaltStage.stopping : HaltStage → Bool
  | .can_halt => true
  | .num_waiters => true
  | .wake_all => true
  | .close => true
  | .join => true
  | _ => false

-- wake_all() has been called, or left out.
def HaltStage.woken : HaltStage → Bool
  | .close => true
  | .join => true
  | _ => false

namespace Halting

variable {α : Type} {s s' t : Halting α} {trace : List (HaltingEvent α)}

-- halt() waits for a worker that nobody is going to wake.
def Asleep (s : Halting α) : Prop :=
  s.stage = .join ∧ s.send_loop.waits = true ∧ s.m_outgoing_queue.items = [] ∧
    s.m_outgoing_queue.m_aborted = false

instance (s : Halting α) : Decidable s.Asleep :=
  match h : s.m_outgoing_queue.items with
  | [] => decidable_of_iff (s.stage = .join ∧ s.send_loop.waits = true ∧
      s.m_outgoing_queue.m_aborted = false) (by simp [Asleep, h])
  | _ :: _ => isFalse (by simp [Asleep, h])

-- The waiters are not counted while the loop is on its way to an empty queue.
def CountsApart (s : Halting α) : HaltingEvent α → Prop
  | .halt => s.stage = .num_waiters → s.send_loop.comes = true → s.m_outgoing_queue.items.isEmpty = false
  | _ => True

instance (s : Halting α) : (e : HaltingEvent α) → Decidable (s.CountsApart e)
  | .halt => inferInstanceAs (Decidable (s.stage = .num_waiters → s.send_loop.comes = true →
      s.m_outgoing_queue.items.isEmpty = false))
  | .send_loop _ _ | .receive_loop _ _ | .send _ => .isTrue trivial

-- Behind the decision, the loop has been told, or finds an item, or has nothing to do with
-- the queue.
structure Awake (s : Halting α) : Prop where
  counted : s.m_outgoing_queue.m_num_waiters = if s.send_loop.waits then 1 else 0
  stopped : s.stage.stopping = true → s.m_stopped = true
  woken : s.stage.woken = true → s.m_outgoing_queue.m_aborted = true ∨
    s.m_outgoing_queue.items ≠ [] ∨ (s.send_loop.comes = false ∧ s.send_loop.waits = false)

theorem Awake.halts (h : s.Awake) (hallowed : s.CountsApart .halt) (hstep : s.Halts s') : s'.Awake := by
  cases hstep with
  | no_waiters hstage hwaiters =>
      refine ⟨h.counted, fun _ => h.stopped (by rw [hstage]; rfl), fun _ => ?_⟩
      have hwaits : s.send_loop.waits = false := by
        have hcounted := h.counted
        rw [hwaiters] at hcounted
        by_contra hwaits
        rw [if_pos (Bool.eq_true_of_not_eq_false hwaits)] at hcounted
        exact absurd hcounted (by decide)
      cases hcomes : s.send_loop.comes with
      | false => exact .inr (.inr ⟨rfl, hwaits⟩)
      | true =>
          have hitems := hallowed hstage hcomes
          exact .inr (.inl (by simpa using hitems))
  | wake_all hstage => exact ⟨h.counted, fun _ => h.stopped (by rw [hstage]; rfl), fun _ => .inl rfl⟩
  | close hstage =>
      exact ⟨h.counted, fun _ => h.stopped (by rw [hstage]; rfl), fun _ => h.woken (by rw [hstage]; rfl)⟩
  | stop => exact ⟨h.counted, fun _ => rfl, nofun⟩
  | go_on hstage => exact ⟨h.counted, fun _ => h.stopped (by rw [hstage]; rfl), nofun⟩
  | waiters hstage => exact ⟨h.counted, fun _ => h.stopped (by rw [hstage]; rfl), nofun⟩
  | _ => exact ⟨h.counted, nofun, nofun⟩

theorem HaltStage.stopping_of_woken {stage : HaltStage} (h : stage.woken = true) :
    stage.stopping = true := by
  cases stage <;> first | rfl | exact absurd h nofun

-- A step of the loop that does not touch the queue. Once the node is stopped it does not
-- begin a call any more.
theorem Awake.turn (h : s.Awake) {send_loop : SendStage α} (hbefore : s.send_loop.waits = false)
    (hafter : send_loop.waits = false) (hcomes : s.m_stopped = true → send_loop.comes = false) :
    ({ s with send_loop } : Halting α).Awake := by
  refine ⟨?_, h.stopped, fun hwoken => ?_⟩
  · have hcounted := h.counted
    rw [hbefore] at hcounted
    exact hcounted.trans (by rw [hafter])
  · exact .inr (.inr ⟨hcomes (h.stopped (HaltStage.stopping_of_woken hwoken)), hafter⟩)

theorem Awake.push (h : s.Awake) (value : α) :
    ({ s with m_outgoing_queue := s.m_outgoing_queue.push value } : Halting α).Awake := by
  refine ⟨h.counted, h.stopped, fun hwoken => ?_⟩
  rcases h.woken hwoken with haborted | hitems | hloop
  · exact .inl haborted
  · exact .inr (.inl (List.append_ne_nil_of_left_ne_nil hitems _))
  · exact .inr (.inr hloop)

theorem SendStage.of_call_returned (out : Option α) :
    (SendStage.of_call (.returned out)).waits = false ∧ (SendStage.of_call (.returned out)).comes = false := by
  cases out <;> exact ⟨rfl, rfl⟩

-- The call that has come to an empty queue waits only where it will be told.
theorem Awake.call (h : s.Awake) {call call' : NextCall α} {m_outgoing_queue : WaitedQueue α}
    (hstage : s.send_loop = .next call) (hcall : s.m_outgoing_queue.Steps call m_outgoing_queue call') :
    ({ s with m_outgoing_queue, send_loop := SendStage.of_call call' } : Halting α).Awake := by
  have hcounted := h.counted
  have hwoken := h.woken
  rw [hstage] at hcounted hwoken
  cases hcall with
  | abort => exact ⟨hcounted, h.stopped, fun _ => .inr (.inr ⟨rfl, rfl⟩)⟩
  | pass =>
      refine ⟨hcounted, h.stopped, fun hstage => ?_⟩
      rcases hwoken hstage with haborted | hitems | ⟨hcomes, -⟩
      · exact .inl haborted
      · exact .inr (.inl hitems)
      · exact absurd hcomes nofun
  | wait hitems hrunning =>
      refine ⟨congrArg (· + 1) hcounted, h.stopped, fun hstage => ?_⟩
      rcases hwoken hstage with haborted | hsome | ⟨hcomes, -⟩
      · rw [hrunning] at haborted
        exact absurd haborted Bool.false_ne_true
      · exact absurd hitems hsome
      · exact absurd hcomes nofun
  | @fetch out =>
      obtain ⟨hwaits, hcomes⟩ := SendStage.of_call_returned out
      refine ⟨hcounted.trans ?_, h.stopped, fun _ => .inr (.inr ⟨hcomes, hwaits⟩)⟩
      rw [hwaits]
      rfl
  | @wake out =>
      obtain ⟨hwaits, hcomes⟩ := SendStage.of_call_returned out
      refine ⟨(congrArg (· - 1) hcounted).trans ?_, h.stopped, fun _ => .inr (.inr ⟨hcomes, hwaits⟩)⟩
      rw [hwaits]
      rfl

theorem Awake.leave (h : s.Awake) : s.leave.Awake := by
  rw [Halting.leave]
  split
  · exact h
  · exact { h with }

theorem Awake.sends (h : s.Awake) (hstep : s.Sends s') : s'.Awake := by
  cases hstep with
  | enter hstage hrunning =>
      refine h.turn (by rw [hstage]; rfl) rfl fun hstopped => ?_
      rw [hrunning] at hstopped
      exact absurd hstopped Bool.false_ne_true
  | call hstage hcall => exact h.call hstage hcall
  | @try_again message hstage => exact (h.push message).turn (by rw [hstage]; rfl) rfl fun _ => rfl
  | leave hstage => exact h.leave.turn (by rw [s.leave_loops.1, hstage]; rfl) rfl fun _ => rfl
  | stop hstage | discard hstage | encode hstage | skip hstage | success hstage | error hstage
  | dispatch hstage => exact h.turn (by rw [hstage]; rfl) rfl fun _ => rfl

theorem Awake.receives (h : s.Awake) (hstep : s.Receives s') : s'.Awake := by
  cases hstep with
  | turn => exact { h with }
  | leave => exact { h.leave with }

theorem step_awake {e : HaltingEvent α} (hinv : s.Awake) (hallowed : s.CountsApart e)
    (hstep : s.step e = some s') : s'.Awake := by
  cases e with
  | halt => exact hinv.halts hallowed (halt_step_halts hstep)
  | send_loop => exact hinv.sends (send_step_sends hstep)
  | receive_loop => exact hinv.receives (receive_step_receives hstep)
  | send m =>
      obtain rfl := Option.some.inj hstep
      exact hinv.push m

theorem launched_awake (on_worker force_try : Bool) (items : List α) (io_service : List Handler) :
    (launched on_worker force_try items io_service).Awake := ⟨rfl, nofun, nofun⟩

-- No halt() waits for a loop that sleeps, as long as it does not count the waiters while the
-- loop is on its way to an empty queue.
theorem halt_not_asleep {on_worker force_try : Bool} {items : List α} {io_service : List Handler}
    (hrun : Run step CountsApart (launched on_worker force_try items io_service) trace t) : ¬t.Asleep := by
  rintro ⟨hstage, hwaits, hitems, hrunning⟩
  have hawake := hrun.invariant (launched_awake on_worker force_try items io_service) step_awake
  rcases hawake.woken (by rw [hstage]; rfl) with haborted | hsome | ⟨-, hout⟩
  · rw [hrunning] at haborted
    exact absurd haborted Bool.false_ne_true
  · exact hsome hitems
  · rw [hwaits] at hout
    exact absurd hout Bool.false_ne_true.symm

-- The loop waits before the waiters are counted.
def wakingTrace : List (HaltingEvent Nat) :=
  List.replicate 3 (.send_loop true .success) ++ List.replicate 7 .halt

def waking : Halting Nat :=
  (wakingTrace.foldlM (guarded step CountsApart) (launched false false [] [])).get (by decide)

theorem waking_not_asleep :
    waking.stage = .join ∧ waking.send_loop = .next .waiting ∧ ¬waking.Asleep := by
  have hrun : Run step CountsApart (launched false false [] []) wakingTrace waking :=
    Run.of_foldlM (Option.some_get _).symm
  exact ⟨by decide, by decide, halt_not_asleep hrun⟩

-- It has looked at m_stopped, and the waiters are counted before it is one of them.
def sleepingTrace : List (HaltingEvent Nat) :=
  .send_loop true .success :: List.replicate 6 .halt ++ List.replicate 2 (.send_loop true .success)

def sleeping : Halting Nat :=
  (sleepingTrace.foldlM (guarded step Always) (launched false false [] [])).get (by decide)

theorem sleeping_asleep :
    Run step Always (launched false false [] []) sleepingTrace sleeping ∧ sleeping.Asleep :=
  ⟨Run.of_foldlM (Option.some_get _).symm, by decide⟩

end Halting

end RoboCrisp.Comms
