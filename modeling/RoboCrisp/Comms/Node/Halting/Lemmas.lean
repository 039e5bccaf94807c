import RoboCrisp.Comms.Node.Halting

namespace RoboCrisp.Comms.Halting

open RoboCrisp.Util RoboCrisp.Transition

variable {α : Type} {s s' : Halting α}

-- All that a step of halt() can do.
inductive Halts (s : Halting α) : Halting α → Prop
  | refuse (hstage : s.stage = .test_and_set) (hhalting : s.m_halting = true) :
      Halts s { s with stage := .returned false }
  | test_and_set (hstage : s.stage = .test_and_set) (hhalting : s.m_halting = false) :
      Halts s { s with m_halting := true, stage := .lock }
  | lock (hstage : s.stage = .lock) (hfree : s.m_halt_mutex = false) :
      Halts s { s with m_halt_mutex := true, stage := .stop }
  | stop (hstage : s.stage = .stop) : Halts s { s with m_stopped := true, stage := .can_halt }
  | fail (hstage : s.stage = .can_halt) (hworker : s.on_worker = true) (hforce : s.force_try = false) :
      Halts s { s with stage := .unstop }
  | go_on (hstage : s.stage = .can_halt) (hcan : ¬(s.on_worker = true ∧ s.force_try = false)) :
      Halts s { s with stage := .num_waiters }
  | unstop (hstage : s.stage = .unstop) : Halts s { s with m_stopped := false, stage := .clear }
  | clear (hstage : s.stage = .clear) : Halts s { s with m_halting := false, stage := .poll .done }
  | polled (hstage : s.stage = .poll .done) (hready : s.io_service = []) :
      Halts s { s with m_halt_mutex := false, stage := .returned false }
  | poll {handler : Handler} {rest : List Handler} (hstage : s.stage = .poll .done)
      (hready : s.io_service = handler :: rest) :
      Halts s { s with io_service := rest, stage := .poll handler }
  | refuse_again {next : Handler} (hstage : s.stage = .poll (.halt next)) (hhalting : s.m_halting = true) :
      Halts s { s with stage := .poll next }
  | relock {next : Handler} (hstage : s.stage = .poll (.halt next)) (hhalting : s.m_halting = false) :
      Halts s { s with m_halting := true, stage := .relock }
  | post {posted next : Handler} (hstage : s.stage = .poll (.post posted next)) :
      Halts s { s with io_service := s.io_service ++ [posted], stage := .poll next }
  | waiters (hstage : s.stage = .num_waiters) (hwaiters : 0 < s.m_outgoing_queue.m_num_waiters) :
      Halts s { s with stage := .wake_all }
  | no_waiters (hstage : s.stage = .num_waiters) (hwaiters : s.m_outgoing_queue.m_num_waiters = 0) :
      Halts s { s with stage := .close }
  | wake_all (hstage : s.stage = .wake_all) :
      Halts s { s with m_outgoing_queue := s.m_outgoing_queue.wake_all, stage := .close }
  | close (hstage : s.stage = .close) : Halts s { s with socket_open := false, stage := .join }
  | join (hstage : s.stage = .join) : Halts s { s with m_halt_mutex := false, stage := .returned true }

theorem halt_step_halts (h : s.halt_step = some s') : s.Halts s' := by
  rw [halt_step] at h
  split at h
  · rename_i hstage
    split at h
    · obtain rfl := Option.some.inj h
      exact .refuse hstage ‹_›
    · obtain rfl := Option.some.inj h
      exact .test_and_set hstage (Bool.eq_false_iff.mpr ‹_›)
  · obtain ⟨hfree, h⟩ := Option.ite_none_left_eq_some.mp h
    obtain rfl := Option.some.inj h
    exact .lock ‹_› (Bool.eq_false_iff.mpr hfree)
  · obtain rfl := Option.some.inj h
    exact .stop ‹_›
  · rename_i hstage
    simp only [Bool.not_eq_true] at h
    split at h
    · rename_i hfails
      obtain rfl := Option.some.inj h
      exact .fail hstage hfails.1 hfails.2
    · obtain rfl := Option.some.inj h
      exact .go_on hstage ‹_›
  · obtain rfl := Option.some.inj h
    exact .unstop ‹_›
  · obtain rfl := Option.some.inj h
    exact .clear ‹_›
  · rename_i hstage
    split at h
    · obtain rfl := Option.some.inj h
      exact .polled hstage ‹_›
    · obtain rfl := Option.some.inj h
      exact .poll hstage ‹_›
  · rename_i hstage
    split at h
    · obtain rfl := Option.some.inj h
      exact .refuse_again hstage ‹_›
    · obtain rfl := Option.some.inj h
      exact .relock hstage (Bool.eq_false_iff.mpr ‹_›)
  · obtain rfl := Option.some.inj h
    exact .post ‹_›
  · exact absurd h (by simp)
  · rename_i hstage
    split at h
    · obtain rfl := Option.some.inj h
      exact .waiters hstage ‹_›
    · obtain rfl := Option.some.inj h
      exact .no_waiters hstage (Nat.eq_zero_of_not_pos ‹_›)
  · obtain rfl := Option.some.inj h
    exact .wake_all ‹_›
  · obtain rfl := Option.some.inj h
    exact .close ‹_›
  · obtain ⟨-, h⟩ := Option.ite_none_left_eq_some.mp h
    obtain rfl := Option.some.inj h
    exact .join ‹_›
  · exact absurd h (by simp)

-- All that a step of send_loop() can do.
inductive Sends (s : Halting α) : Halting α → Prop
  | stop (hstage : s.send_loop = .test) (hstopped : s.m_stopped = true) :
      Sends s { s with send_loop := .leave }
  | enter (hstage : s.send_loop = .test) (hrunning : s.m_stopped = false) :
      Sends s { s with send_loop := .next .entered }
  | call {call call' : NextCall α} {m_outgoing_queue : WaitedQueue α} (hstage : s.send_loop = .next call)
      (hcall : s.m_outgoing_queue.Steps call m_outgoing_queue call') :
      Sends s { s with m_outgoing_queue, send_loop := SendStage.of_call call' }
  | discard {message : α} (hstage : s.send_loop = .encode message) (hstopped : s.m_stopped = true) :
      Sends s { s with send_loop := .leave }
  | encode {message : α} (hstage : s.send_loop = .encode message) (hrunning : s.m_stopped = false) :
      Sends s { s with send_loop := .write message }
  | skip {message : α} (hstage : s.send_loop = .encode message) (hrunning : s.m_stopped = false) :
      Sends s { s with send_loop := .test }
  | success {message : α} (hstage : s.send_loop = .write message) : Sends s { s with send_loop := .dispatch }
  | try_again {message : α} (hstage : s.send_loop = .write message) :
      Sends s { s with m_outgoing_queue := s.m_outgoing_queue.emplace message, send_loop := .test }
  | error {message : α} (hstage : s.send_loop = .write message) : Sends s { s with send_loop := .leave }
  | dispatch (hstage : s.send_loop = .dispatch) : Sends s { s with send_loop := .test }
  | leave (hstage : s.send_loop = .leave) : Sends s { s.leave with send_loop := .exited }

theorem send_step_sends {encoded : Bool} {outcome : WriteOutcome}
    (h : s.send_step encoded outcome = some s') : s.Sends s' := by
  rw [send_step] at h
  split at h
  · rename_i hstage
    obtain rfl := Option.some.inj h
    split
    · exact .stop hstage ‹_›
    · exact .enter hstage (Bool.eq_false_iff.mpr ‹_›)
  · obtain ⟨⟨queue, call⟩, hcall, h⟩ := Option.bind_eq_some_iff.mp h
    obtain rfl := Option.some.inj h
    exact .call ‹_› (WaitedQueue.next_step_steps hcall)
  · rename_i hstage
    split at h
    · obtain rfl := Option.some.inj h
      exact .discard hstage ‹_›
    · rename_i hrunning
      have hrunning := Bool.eq_false_iff.mpr hrunning
      split at h
      · obtain rfl := Option.some.inj h
        exact .encode hstage hrunning
      · obtain rfl := Option.some.inj h
        exact .skip hstage hrunning
  · rename_i hstage
    split at h
    · obtain ⟨-, h⟩ := Option.ite_none_right_eq_some.mp h
      obtain rfl := Option.some.inj h
      exact .success hstage
    · obtain rfl := Option.some.inj h
      exact .try_again hstage
    · obtain rfl := Option.some.inj h
      exact .error hstage
  · obtain rfl := Option.some.inj h
    exact .dispatch ‹_›
  · obtain rfl := Option.some.inj h
    exact .leave ‹_›
  · exact absurd h (by simp)

-- What a step of receive_loop() can do, apart from the order of its statements.
inductive Receives (s : Halting α) : Halting α → Prop
  | turn {receive_loop : ReceiveStage} {handlers : List Handler} (hnext : receive_loop ≠ .exited) :
      Receives s { s with io_service := s.io_service ++ handlers, receive_loop }
  | leave (hstage : s.receive_loop = .leave) : Receives s { s.leave with receive_loop := .exited }

theorem Receives.quiet {receive_loop : ReceiveStage} (hnext : receive_loop ≠ .exited) :
    s.Receives { s with receive_loop } := by
  have hturn : s.Receives { s with io_service := s.io_service ++ [], receive_loop } := .turn hnext
  rwa [List.append_nil] at hturn

theorem receive_step_receives {ok : Bool} {handlers : List Handler}
    (h : s.receive_step ok handlers = some s') : s.Receives s' := by
  rw [receive_step] at h
  split at h
  · obtain rfl := Option.some.inj h
    exact .quiet (by split <;> nofun)
  · obtain rfl := Option.some.inj h
    exact .quiet (by split <;> nofun)
  · obtain rfl := Option.some.inj h
    exact .quiet (by split <;> nofun)
  · obtain rfl := Option.some.inj h
    exact .quiet (by split <;> nofun)
  · split at h
    · obtain rfl := Option.some.inj h
      exact .quiet nofun
    · obtain rfl := Option.some.inj h
      exact .quiet (by split <;> nofun)
  · obtain rfl := Option.some.inj h
    exact .turn nofun
  · obtain rfl := Option.some.inj h
    exact .quiet (by split <;> nofun)
  · obtain rfl := Option.some.inj h
    exact .leave ‹_›
  · exact absurd h (by simp)

-- A step that the calling thread does not notice, other than by new handlers.
structure Apart (s s' : Halting α) : Prop where
  on_worker : s'.on_worker = s.on_worker
  force_try : s'.force_try = s.force_try
  m_halting : s'.m_halting = s.m_halting
  m_stopped : s'.m_stopped = s.m_stopped
  m_halt_mutex : s'.m_halt_mutex = s.m_halt_mutex
  stage : s'.stage = s.stage
  io_service : s.io_service <+: s'.io_service

theorem Apart.refl (s : Halting α) : s.Apart s := ⟨rfl, rfl, rfl, rfl, rfl, rfl, List.prefix_rfl⟩

theorem leave_apart (s : Halting α) : s.Apart s.leave := by
  rw [leave]
  split
  · exact Apart.refl s
  · exact { Apart.refl s with io_service := List.prefix_append _ _ }

theorem leave_loops (s : Halting α) :
    s.leave.send_loop = s.send_loop ∧ s.leave.receive_loop = s.receive_loop := by
  rw [leave]
  split <;> exact ⟨rfl, rfl⟩

theorem Sends.apart (h : s.Sends s') : s.Apart s' := by
  cases h with
  | leave => exact { leave_apart s with }
  | _ => exact { Apart.refl s with }

theorem Receives.apart (h : s.Receives s') : s.Apart s' := by
  cases h with
  | turn => exact { Apart.refl s with io_service := List.prefix_append _ _ }
  | leave => exact { leave_apart s with }

end RoboCrisp.Comms.Halting
