import RoboCrisp.Comms.Node
import RoboCrisp.Comms.Message.Frame

namespace RoboCrisp.Comms

open RoboCrisp.Stream RoboCrisp.Util

-- Jobs that a message from the peer is the reason for.
def Job.fromPeer : Job → Bool
  | .handshake_received _ => true
  | .handshake_response_received _ => true
  | .configuration_query_received => true
  | _ => false

-- The handler of a response that acknowledges the handshake.
def Job.accepts : Job → Bool
  | .handshake_response_received hs => hs.acknowledge = .ACK
  | _ => false

def Job.timesOut : Job → Bool
  | .timer_expiry_handler _ => true
  | _ => false

-- launch() has not set the timer for the handshake.
def LaunchStage.beforeTimer : LaunchStage → Bool
  | .timer_set _ => false
  | .returned => false
  | _ => true

theorem Job.accepts_eq_true {job : Job} (h : job.accepts = true) :
    ∃ hs, job = .handshake_response_received hs ∧ hs.acknowledge = .ACK := by
  cases job with
  | handshake_response_received hs => exact ⟨hs, rfl, of_decide_eq_true h⟩
  | _ => exact absurd h Bool.false_ne_true

namespace Node

-- The response of the peer has been handled, and it accepts.
def Accepted (n : Node) : Prop := ∃ job ∈ n.handled, job.accepts = true

instance (n : Node) : Decidable n.Accepted :=
  inferInstanceAs (Decidable (∃ job ∈ n.handled, job.accepts = true))

variable {n n' n'' : Node} {ms ms' : List Message}

-- All that a handler does outside of the scheduler and the flags: it sends `ms`, and posts
-- jobs of the node's own.
structure Acts (n : Node) (ms : List Message) (n' : Node) : Prop where
  role : n'.role = n.role
  version : n'.version = n.version
  configuration : n'.configuration = n.configuration
  launching : n'.launching = n.launching
  send_loop : n'.send_loop = n.send_loop
  receive_loop : n'.receive_loop = n.receive_loop
  written : n'.written = n.written
  dispatched : n'.dispatched = n.dispatched
  handled : n'.handled = n.handled
  sent : n'.sent = n.sent ++ ms
  items : n'.m_outgoing_queue.items = n.m_outgoing_queue.items ++ ms
  io_service : ∃ jobs, n'.io_service = n.io_service ++ jobs ∧ ∀ job ∈ jobs, job.fromPeer = false

theorem Acts.refl (n : Node) : n.Acts [] n :=
  ⟨rfl, rfl, rfl, rfl, rfl, rfl, rfl, rfl, rfl, (List.append_nil _).symm, (List.append_nil _).symm, [],
    (List.append_nil _).symm, fun _ h => absurd h List.not_mem_nil⟩

theorem Acts.trans (h : n.Acts ms n') (h' : n'.Acts ms' n'') : n.Acts (ms ++ ms') n'' := by
  obtain ⟨jobs, hjobs, hown⟩ := h.io_service
  obtain ⟨jobs', hjobs', hown'⟩ := h'.io_service
  refine ⟨h'.role.trans h.role, h'.version.trans h.version, h'.configuration.trans h.configuration,
    h'.launching.trans h.launching, h'.send_loop.trans h.send_loop, h'.receive_loop.trans h.receive_loop,
    h'.written.trans h.written, h'.dispatched.trans h.dispatched, h'.handled.trans h.handled, ?_, ?_,
    jobs ++ jobs', ?_, fun job hjob => ?_⟩
  · rw [h'.sent, h.sent, List.append_assoc]
  · rw [h'.items, h.items, List.append_assoc]
  · rw [hjobs', hjobs, List.append_assoc]
  · rcases List.mem_append.mp hjob with hjob | hjob
    · exact hown job hjob
    · exact hown' job hjob

-- A step that only changes the scheduler, the handles and the flags.
theorem Acts.silent (h : n.Acts [] n') (h' : n'.Acts ms n'') : n.Acts ms n'' := h.trans h'

theorem Acts.post (n : Node) {job : Job} (h : job.fromPeer = false) : n.Acts [] (n.post job) :=
  ⟨rfl, rfl, rfl, rfl, rfl, rfl, rfl, rfl, rfl, (List.append_nil _).symm, (List.append_nil _).symm, [job],
    rfl, fun _ hjob => List.mem_singleton.mp hjob ▸ h⟩

theorem Acts.send (n : Node) (m : Message) : n.Acts [m] (n.send m) :=
  ⟨rfl, rfl, rfl, rfl, rfl, rfl, rfl, rfl, rfl, rfl, rfl, [], (List.append_nil _).symm,
    fun _ h => absurd h List.not_mem_nil⟩

-- Whatever becomes of the scheduler, the handles and the flags.
theorem Acts.flags (n : Node) (scheduler : Scheduler NodeAction) (m_sync_action m_halt_action : Option Nat)
    (m_halting m_stopped socket_open workers : Bool) :
    n.Acts [] { n with scheduler, m_sync_action, m_halt_action, m_halting, m_stopped, socket_open, workers } :=
  ⟨rfl, rfl, rfl, rfl, rfl, rfl, rfl, rfl, rfl, (List.append_nil _).symm, (List.append_nil _).symm, [],
    (List.append_nil _).symm, fun _ h => absurd h List.not_mem_nil⟩

theorem cancel_periodic_acts (n : Node) (id : Nat) : n.Acts [] (n.cancel_periodic id) :=
  (Acts.flags n (n.scheduler.deactivate id) _ _ _ _ _ _).silent (Acts.post _ rfl)

theorem cancel_scheduled_acts (n : Node) (id : Nat) : n.Acts [] (n.cancel_scheduled id) :=
  (Acts.flags n (n.scheduler.abort_wait id) _ _ _ _ _ _).silent (Acts.post _ rfl)

theorem cancel_sync_action_acts (n : Node) : n.Acts [] n.cancel_sync_action := by
  rw [cancel_sync_action]
  split
  · exact (cancel_periodic_acts n _).silent (Acts.flags _ _ none _ _ _ _ _)
  · exact Acts.flags n _ none _ _ _ _ _

theorem cancel_halt_action_acts (n : Node) : n.Acts [] n.cancel_halt_action := by
  rw [cancel_halt_action]
  split
  · exact (cancel_scheduled_acts n _).silent (Acts.flags _ _ _ none _ _ _ _)
  · exact Acts.flags n _ _ none _ _ _ _

theorem wake_waiters_acts (n : Node) : n.Acts [] n.wake_waiters := by
  rw [wake_waiters]
  split
  · exact ⟨rfl, rfl, rfl, rfl, rfl, rfl, rfl, rfl, rfl, (List.append_nil _).symm, (List.append_nil _).symm,
      [], (List.append_nil _).symm, fun _ h => absurd h List.not_mem_nil⟩
  · exact Acts.refl n

theorem halt_acts (n : Node) (on_worker force_try : Bool) : n.Acts [] (n.halt on_worker force_try).1 := by
  rw [halt]
  split
  · exact Acts.refl n
  · split
    · exact Acts.refl n
    · exact ((((wake_waiters_acts n).silent (Acts.flags _ _ _ _ true true false _)).silent
        (cancel_sync_action_acts _)).silent (cancel_halt_action_acts _)).silent
        (Acts.flags _ _ _ _ _ _ _ _)

theorem leave_loop_acts (n : Node) : n.Acts [] n.leave_loop := by
  rw [leave_loop]
  split
  · exact Acts.refl n
  · exact Acts.post n rfl

theorem handshake_response_received_acts (n : Node) (hs : HandshakeResponse) (on_worker : Bool) :
    n.Acts [] (n.handshake_response_received hs on_worker) := by
  rw [handshake_response_received]
  split
  · exact (cancel_halt_action_acts n).silent (Acts.flags _ _ _ _ _ _ _ _)
  · exact halt_acts n on_worker false

theorem perform_cases {on_worker : Bool} {action : NodeAction} (h : n.perform on_worker action = some n') :
    (∃ m, Message.ofType .SYNC = some m ∧ n' = n.send m) ∨ n' = (n.halt on_worker false).1 := by
  cases action with
  | send_sync =>
      rw [perform] at h
      obtain ⟨m, hm, h⟩ := Option.bind_eq_some_iff.mp h
      exact .inl ⟨m, hm, (Option.some.inj h).symm⟩
  | halt => exact .inr (Option.some.inj h).symm

-- The messages that come from running a job.
def Replies (n : Node) (job : Job) (m : Message) : Prop :=
  Message.ofType .SYNC = some m ∨
    (∃ hs, job = .handshake_received hs ∧ Message.ofBody (.handshake_response (n.response hs)) = some m) ∨
    ∃ c, job = .configuration_query_received ∧ n.configuration.copy = some c ∧
      Message.ofBody (.configuration c) = some m

-- All that running a job can do.
inductive Handles (n : Node) (on_worker : Bool) : Job → Node → Prop
  | reply {job : Job} {m : Message} (hreply : n.Replies job m) : Handles n on_worker job (n.send m)
  | response (hs : HandshakeResponse) :
      Handles n on_worker (.handshake_response_received hs) (n.handshake_response_received hs on_worker)
  | expired {id : Nat} {action : NodeAction} {n' : Node}
      (hperform : { n with scheduler := n.scheduler.finish id }.perform on_worker action = some n') :
      Handles n on_worker (.timer_expiry_handler id) (n'.cancel_scheduled id)
  | remove_scheduled (id : Nat) : Handles n on_worker (.remove_scheduled id)
      { n with scheduler := n.scheduler.remove_scheduled id }
  | remove_periodic (id : Nat) : Handles n on_worker (.remove_periodic id)
      { n with scheduler := n.scheduler.remove_periodic id }
  | halt : Handles n on_worker .halt (n.halt on_worker false).1

theorem run_job_handles {on_worker : Bool} {job : Job} (h : n.run_job on_worker job = some n') :
    n.Handles on_worker job n' := by
  cases job with
  | handshake_received hs =>
      rw [run_job, handshake_received] at h
      obtain ⟨m, hm, h⟩ := Option.bind_eq_some_iff.mp h
      obtain rfl := Option.some.inj h
      exact .reply (.inr (.inl ⟨hs, rfl, hm⟩))
  | handshake_response_received hs =>
      obtain rfl := Option.some.inj h
      exact .response hs
  | configuration_query_received =>
      rw [run_job, configuration_query_received] at h
      obtain ⟨c, hc, h⟩ := Option.bind_eq_some_iff.mp h
      obtain ⟨m, hm, h⟩ := Option.bind_eq_some_iff.mp h
      obtain rfl := Option.some.inj h
      exact .reply (.inr (.inr ⟨c, rfl, hc, hm⟩))
  | timer_expiry_handler id =>
      rw [run_job, timer_expiry_handler] at h
      obtain ⟨action, -, h⟩ := Option.bind_eq_some_iff.mp h
      obtain ⟨middle, hperform, h⟩ := Option.bind_eq_some_iff.mp h
      obtain rfl := Option.some.inj h
      exact .expired hperform
  | remove_scheduled id =>
      obtain rfl := Option.some.inj h
      exact .remove_scheduled id
  | remove_periodic id =>
      obtain rfl := Option.some.inj h
      exact .remove_periodic id
  | halt =>
      obtain rfl := Option.some.inj h
      exact .halt

theorem perform_acts {on_worker : Bool} {action : NodeAction} (h : n.perform on_worker action = some n') :
    ∃ ms, n.Acts ms n' ∧ ∀ m ∈ ms, Message.ofType .SYNC = some m := by
  rcases perform_cases h with ⟨m, hm, rfl⟩ | rfl
  · exact ⟨[m], Acts.send n m, fun m' hm' => List.mem_singleton.mp hm' ▸ hm⟩
  · exact ⟨[], halt_acts n on_worker false, fun m hm => absurd hm List.not_mem_nil⟩

theorem run_job_acts {on_worker : Bool} {job : Job} (h : n.run_job on_worker job = some n') :
    ∃ ms, n.Acts ms n' ∧ ∀ m ∈ ms, n.Replies job m := by
  cases run_job_handles h with
  | @reply _ m hreply => exact ⟨[m], Acts.send n m, fun m' hm' => List.mem_singleton.mp hm' ▸ hreply⟩
  | response hs =>
      exact ⟨[], handshake_response_received_acts n hs on_worker, fun m hm => absurd hm List.not_mem_nil⟩
  | @expired id _ middle hperform =>
      obtain ⟨ms, hacts, hms⟩ := perform_acts hperform
      have hall := ((Acts.flags n (n.scheduler.finish id) _ _ _ _ _ _).silent hacts).trans
        (cancel_scheduled_acts middle id)
      rw [List.append_nil] at hall
      exact ⟨ms, hall, fun m hm => .inl (hms m hm)⟩
  | remove_scheduled id => exact ⟨[], Acts.flags n _ _ _ _ _ _ _, fun m hm => absurd hm List.not_mem_nil⟩
  | remove_periodic id => exact ⟨[], Acts.flags n _ _ _ _ _ _ _, fun m hm => absurd hm List.not_mem_nil⟩
  | halt => exact ⟨[], halt_acts n on_worker false, fun m hm => absurd hm List.not_mem_nil⟩

theorem tick_acts {id : Nat} (h : n.tick id = some n') :
    ∃ ms, n.Acts ms n' ∧ ∀ m ∈ ms, Message.ofType .SYNC = some m := by
  obtain ⟨action, -, h⟩ := Option.bind_eq_some_iff.mp h
  split at h
  · exact perform_acts h
  · obtain rfl := Option.some.inj h
    exact ⟨[], Acts.refl n, fun m hm => absurd hm List.not_mem_nil⟩

theorem expire_acts (n : Node) (id : Nat) :
    n.Acts [] ({ n with scheduler := n.scheduler.expire id }.post (.timer_expiry_handler id)) :=
  (Acts.flags n (n.scheduler.expire id) _ _ _ _ _ _).silent (Acts.post _ rfl)

-- The handler that a message has in wait for the node.
def Delivers (m : Message) (job : Job) : Prop :=
  (m.header.type = .HANDSHAKE ∧
      ∃ hs, job = .handshake_received hs ∧ m.as Handshake.decode_copy = some hs) ∨
    (m.header.type = .HANDSHAKE_RESPONSE ∧ ∃ (heap : Heap) (hs : HandshakeResponse),
      job = .handshake_response_received hs ∧ m.as (@HandshakeResponse.decode_copy heap) = some hs) ∨
    (m.header.type = .CONFIGURATION_QUERY ∧ job = .configuration_query_received)

theorem dispatch_cases [Heap] {m : Message} {direction : MessageDirection}
    (h : n.dispatch m direction = some n') :
    n' = n ∨ ∃ job, Delivers m job ∧ n' = n.call_handler direction job := by
  rw [dispatch] at h
  split at h
  · rename_i htype
    obtain ⟨hs, hbody, h⟩ := Option.bind_eq_some_iff.mp h
    exact .inr ⟨_, .inl ⟨htype, hs, rfl, hbody⟩, (Option.some.inj h).symm⟩
  · split at h
    · rename_i htype
      obtain ⟨hs, hbody, h⟩ := Option.bind_eq_some_iff.mp h
      exact .inr ⟨_, .inr (.inl ⟨htype, _, hs, rfl, hbody⟩), (Option.some.inj h).symm⟩
    · split at h
      · rename_i htype
        exact .inr ⟨_, .inr (.inr ⟨htype, rfl⟩), (Option.some.inj h).symm⟩
      · split at h
        · obtain ⟨_, -, h⟩ := Option.bind_eq_some_iff.mp h
          exact .inl (Option.some.inj h).symm
        · split at h
          · obtain ⟨_, -, h⟩ := Option.bind_eq_some_iff.mp h
            exact .inl (Option.some.inj h).symm
          · obtain ⟨-, h⟩ := Option.ite_none_left_eq_some.mp h
            exact .inl (Option.some.inj h).symm

theorem dispatch_outgoing_eq [Heap] {m : Message} (h : n.dispatch m .OUTGOING = some n') : n' = n := by
  rcases dispatch_cases h with h | ⟨job, -, h⟩
  · exact h
  · exact h

-- All that a step can do.
inductive Effect [Heap] (n : Node) : NodeEvent → Node → Prop
  | refuse (hstage : n.launching = .uncalled) : Effect n .launch { n with launching := .returned }
  | greet {m : Message} (hstage : n.launching = .uncalled)
      (hm : Message.ofBody (.handshake (.make n.version n.role)) = some m) :
      Effect n .launch { n.send m with launching := .sent_handshake }
  | start_workers (hstage : n.launching = .sent_handshake) :
      Effect n .launch { n with workers := true, launching := .launched_workers }
  | spawn_receive_loop (hstage : n.launching = .launched_workers) :
      Effect n .launch { n with receive_loop := .reading, launching := .spawned_receive_loop }
  | spawn_send_loop (hstage : n.launching = .spawned_receive_loop) :
      Effect n .launch { n with send_loop := .waiting, launching := .spawned_send_loop }
  | set_timer (hstage : n.launching = .spawned_send_loop) :
      Effect n .launch { n with
        scheduler := (n.scheduler.set_timer .halt).1
        launching := .timer_set n.scheduler.next_id }
  | store_timer {id : Nat} (hstage : n.launching = .timer_set id) :
      Effect n .launch { n with m_halt_action := some id, launching := .returned }
  | incoming {m : Message} (hloop : n.receive_loop = .reading) :
      Effect n (.incoming m) { n with receive_loop := .received m }
  | incoming_stopped {m : Message} (hloop : n.receive_loop = .reading) :
      Effect n (.incoming m) { n with receive_loop := .exited }
  | incoming_failed (hloop : n.receive_loop = .reading) :
      Effect n .incoming_failed { n with receive_loop := .exited }.leave_loop
  | ignore {m : Message} (hloop : n.receive_loop = .received m) :
      Effect n .dispatch_incoming { n with receive_loop := .reading, dispatched := n.dispatched ++ [m] }
  | deliver {m : Message} {job : Job} (hloop : n.receive_loop = .received m) (hjob : Delivers m job) :
      Effect n .dispatch_incoming
        ({ n with receive_loop := .reading, dispatched := n.dispatched ++ [m] }.post job)
  | fetch_stopped (hloop : n.send_loop = .waiting) : Effect n .fetch { n with send_loop := .exited }
  | fetch_aborted (hloop : n.send_loop = .waiting) :
      Effect n .fetch { n with send_loop := .exited }.leave_loop
  | fetch {m : Message} {m_outgoing_queue : SharedQueue Message} (hloop : n.send_loop = .waiting)
      (hitems : n.m_outgoing_queue.items = m :: m_outgoing_queue.items) :
      Effect n .fetch { n with m_outgoing_queue, send_loop := .writing m }
  | write_success {m : Message} (hloop : n.send_loop = .writing m) :
      Effect n (.write .success) { n with send_loop := .written m, written := n.written ++ [m] }
  | write_try_again {m : Message} (hloop : n.send_loop = .writing m) :
      Effect n (.write .try_again)
        { n with send_loop := .waiting, m_outgoing_queue := n.m_outgoing_queue.emplace m }
  | write_error {m : Message} (hloop : n.send_loop = .writing m) :
      Effect n (.write .error) { n with send_loop := .exited }.leave_loop
  | dispatch_outgoing {m : Message} (hloop : n.send_loop = .written m) :
      Effect n .dispatch_outgoing { n with send_loop := .waiting }
  | execute {i : Nat} {on_worker : Bool} {job : Job} {n' : Node} (hjob : n.io_service[i]? = some job)
      (hrun : { n with io_service := n.io_service.eraseIdx i, handled := n.handled ++ [job] }.run_job
        on_worker job = some n') : Effect n (.execute i on_worker) n'
  | tick {id : Nat} {n' : Node} (htick : n.tick id = some n') : Effect n (.tick id) n'
  | expire {id : Nat} {action : ScheduledAction NodeAction} (hfind : n.scheduler.find_scheduled id = some action)
      (hpending : action.m_timer = .pending) :
      Effect n (.expire id) ({ n with scheduler := n.scheduler.expire id }.post (.timer_expiry_handler id))
  | send (m : Message) : Effect n (.send m) (n.send m)
  | halt (on_worker force_try : Bool) :
      Effect n (.halt on_worker force_try) (n.halt on_worker force_try).1

section Effects

variable [Heap]

theorem launch_effect (h : n.launch = some n') : n.Effect .launch n' := by
  rw [launch] at h
  split at h
  · rename_i hstage
    split at h
    · obtain rfl := Option.some.inj h
      exact .refuse hstage
    · obtain ⟨m, hm, h⟩ := Option.bind_eq_some_iff.mp h
      obtain rfl := Option.some.inj h
      exact .greet hstage hm
  · rename_i hstage
    obtain rfl := Option.some.inj h
    exact .start_workers hstage
  · rename_i hstage
    obtain rfl := Option.some.inj h
    exact .spawn_receive_loop hstage
  · rename_i hstage
    obtain rfl := Option.some.inj h
    exact .spawn_send_loop hstage
  · rename_i hstage
    obtain rfl := Option.some.inj h
    exact .set_timer hstage
  · rename_i id hstage
    obtain rfl := Option.some.inj h
    exact .store_timer hstage
  · exact absurd h (by simp)

theorem incoming_effect {m : Message} (h : n.incoming m = some n') : n.Effect (.incoming m) n' := by
  obtain ⟨hloop, h⟩ := Option.ite_none_right_eq_some.mp h
  split at h
  · obtain rfl := Option.some.inj h
    exact .incoming_stopped hloop
  · obtain rfl := Option.some.inj h
    exact .incoming hloop

theorem dispatch_incoming_effect (h : n.dispatch_incoming = some n') : n.Effect .dispatch_incoming n' := by
  rw [dispatch_incoming] at h
  split at h
  · rename_i m hloop
    rcases dispatch_cases h with rfl | ⟨job, hjob, rfl⟩
    · exact .ignore hloop
    · exact .deliver hloop hjob
  · exact absurd h (by simp)

theorem fetch_effect (h : n.fetch = some n') : n.Effect .fetch n' := by
  obtain ⟨hloop, h⟩ := Option.ite_none_right_eq_some.mp h
  split at h
  · obtain rfl := Option.some.inj h
    exact .fetch_stopped hloop
  · obtain ⟨⟨message, queue⟩, hnext, h⟩ := Option.bind_eq_some_iff.mp h
    cases message with
    | none =>
        obtain rfl := SharedQueue.eq_of_next_aborted hnext
        obtain rfl := Option.some.inj h
        exact .fetch_aborted hloop
    | some m =>
        obtain ⟨size, -, h⟩ := Option.bind_eq_some_iff.mp h
        obtain ⟨⟨er, last⟩, hencode, h⟩ := Option.bind_eq_some_iff.mp h
        obtain rfl := Message.encode_success hencode
        obtain rfl := Option.some.inj h
        exact .fetch hloop (SharedQueue.items_of_next_item hnext)

theorem write_effect {outcome : WriteOutcome} (h : n.write outcome = some n') :
    n.Effect (.write outcome) n' := by
  rw [write] at h
  split at h
  · rename_i m hloop
    cases outcome with
    | success =>
        obtain ⟨-, h⟩ := Option.ite_none_right_eq_some.mp h
        obtain rfl := Option.some.inj h
        exact .write_success hloop
    | try_again =>
        obtain rfl := Option.some.inj h
        exact .write_try_again hloop
    | error =>
        obtain rfl := Option.some.inj h
        exact .write_error hloop
  · exact absurd h (by simp)

theorem dispatch_outgoing_effect (h : n.dispatch_outgoing = some n') : n.Effect .dispatch_outgoing n' := by
  rw [dispatch_outgoing] at h
  split at h
  · rename_i m hloop
    obtain rfl := dispatch_outgoing_eq h
    exact .dispatch_outgoing hloop
  · exact absurd h (by simp)

theorem step_effect {e : NodeEvent} (h : n.step e = some n') : n.Effect e n' := by
  cases e with
  | launch => exact launch_effect h
  | incoming m => exact incoming_effect h
  | incoming_failed =>
      obtain ⟨hloop, h⟩ := Option.ite_none_right_eq_some.mp h
      obtain rfl := Option.some.inj h
      exact .incoming_failed hloop
  | dispatch_incoming => exact dispatch_incoming_effect h
  | fetch => exact fetch_effect h
  | write outcome => exact write_effect h
  | dispatch_outgoing => exact dispatch_outgoing_effect h
  | execute i on_worker =>
      obtain ⟨job, hjob, h⟩ := Option.bind_eq_some_iff.mp h
      obtain ⟨-, h⟩ := Option.ite_none_left_eq_some.mp h
      exact .execute hjob h
  | tick id => exact .tick h
  | expire id =>
      obtain ⟨action, hfind, h⟩ := Option.bind_eq_some_iff.mp h
      obtain ⟨hpending, h⟩ := Option.ite_none_right_eq_some.mp h
      obtain rfl := Option.some.inj h
      exact .expire hfind hpending
  | send m =>
      obtain rfl := Option.some.inj h
      exact .send m
  | halt on_worker force_try =>
      obtain ⟨-, h⟩ := Option.ite_none_left_eq_some.mp h
      obtain rfl := Option.some.inj h
      exact .halt on_worker force_try

end Effects

-- A step that leaves the timers, the handles to them and what has been handled alone.
structure Idle (n n' : Node) : Prop where
  scheduler : n'.scheduler = n.scheduler
  m_sync_action : n'.m_sync_action = n.m_sync_action
  m_halt_action : n'.m_halt_action = n.m_halt_action
  m_halting : n'.m_halting = n.m_halting
  handled : n'.handled = n.handled
  io_service : ∃ jobs, n'.io_service = n.io_service ++ jobs ∧ ∀ job ∈ jobs, job.timesOut = false

theorem Idle.silent (hscheduler : n'.scheduler = n.scheduler) (hsync : n'.m_sync_action = n.m_sync_action)
    (hhalt : n'.m_halt_action = n.m_halt_action) (hhalting : n'.m_halting = n.m_halting)
    (hhandled : n'.handled = n.handled) (hjobs : n'.io_service = n.io_service) : n.Idle n' :=
  ⟨hscheduler, hsync, hhalt, hhalting, hhandled, [], hjobs.trans (List.append_nil _).symm,
    fun _ hjob => absurd hjob List.not_mem_nil⟩

theorem Idle.post (h : n.Idle n') {job : Job} (hjob : job.timesOut = false) : n.Idle (n'.post job) := by
  obtain ⟨jobs, hjobs, hother⟩ := h.io_service
  refine ⟨h.scheduler, h.m_sync_action, h.m_halt_action, h.m_halting, h.handled, jobs ++ [job], ?_,
    fun job' hmem => ?_⟩
  · rw [← List.append_assoc, ← hjobs]
    rfl
  · rcases List.mem_append.mp hmem with hmem | hmem
    · exact hother job' hmem
    · rw [List.mem_singleton.mp hmem]
      exact hjob

theorem Idle.leave_loop (h : n.Idle n') : n.Idle n'.leave_loop := by
  rw [Node.leave_loop]
  split
  · exact h
  · exact h.post rfl

theorem leave_loop_launching (n : Node) : n.leave_loop.launching = n.launching :=
  (leave_loop_acts n).launching

theorem Delivers.timesOut {m : Message} {job : Job} (h : Delivers m job) : job.timesOut = false := by
  rcases h with ⟨-, hs, rfl, -⟩ | ⟨-, heap, hs, rfl, -⟩ | ⟨-, rfl⟩ <;> rfl

-- What a step does as far as the scheduler is concerned.
inductive Schedules (n : Node) : NodeEvent → Node → Prop
  | idle {e : NodeEvent} {n' : Node} (hidle : n.Idle n') (hstage : n'.launching = n.launching) :
      Schedules n e n'
  | launch {n' : Node} (hidle : n.Idle n') (hbefore : n.launching.beforeTimer = true)
      (hstage : ∀ id, n'.launching ≠ .timer_set id) : Schedules n .launch n'
  | set_timer (hstage : n.launching = .spawned_send_loop) :
      Schedules n .launch { n with
        scheduler := (n.scheduler.set_timer .halt).1
        launching := .timer_set n.scheduler.next_id }
  | store_timer {id : Nat} (hstage : n.launching = .timer_set id) :
      Schedules n .launch { n with m_halt_action := some id, launching := .returned }
  | execute {i : Nat} {on_worker : Bool} {job : Job} {n' : Node} (hjob : n.io_service[i]? = some job)
      (hrun : { n with io_service := n.io_service.eraseIdx i, handled := n.handled ++ [job] }.run_job
        on_worker job = some n') : Schedules n (.execute i on_worker) n'
  | tick {id : Nat} {n' : Node} (htick : n.tick id = some n') : Schedules n (.tick id) n'
  | expire {id : Nat} {action : ScheduledAction NodeAction} (hfind : n.scheduler.find_scheduled id = some action)
      (hpending : action.m_timer = .pending) :
      Schedules n (.expire id) ({ n with scheduler := n.scheduler.expire id }.post (.timer_expiry_handler id))
  | halt (on_worker force_try : Bool) :
      Schedules n (.halt on_worker force_try) (n.halt on_worker force_try).1

theorem step_schedules [Heap] {e : NodeEvent} (h : n.step e = some n') : n.Schedules e n' := by
  cases step_effect h with
  | refuse hstage => exact .launch (.silent rfl rfl rfl rfl rfl rfl) (congrArg LaunchStage.beforeTimer hstage) fun _ => nofun
  | greet hstage => exact .launch (.silent rfl rfl rfl rfl rfl rfl) (congrArg LaunchStage.beforeTimer hstage) fun _ => nofun
  | start_workers hstage =>
      exact .launch (.silent rfl rfl rfl rfl rfl rfl) (congrArg LaunchStage.beforeTimer hstage) fun _ => nofun
  | spawn_receive_loop hstage =>
      exact .launch (.silent rfl rfl rfl rfl rfl rfl) (congrArg LaunchStage.beforeTimer hstage) fun _ => nofun
  | spawn_send_loop hstage =>
      exact .launch (.silent rfl rfl rfl rfl rfl rfl) (congrArg LaunchStage.beforeTimer hstage) fun _ => nofun
  | set_timer hstage => exact .set_timer hstage
  | store_timer hstage => exact .store_timer hstage
  | incoming_failed =>
      have hloop : n.Idle { n with receive_loop := .exited } := .silent rfl rfl rfl rfl rfl rfl
      exact .idle hloop.leave_loop (leave_loop_launching _)
  | @deliver m job _ hjob =>
      have hloop : n.Idle { n with receive_loop := .reading, dispatched := n.dispatched ++ [m] } :=
        .silent rfl rfl rfl rfl rfl rfl
      exact .idle (hloop.post hjob.timesOut) rfl
  | fetch_aborted =>
      have hloop : n.Idle { n with send_loop := .exited } := .silent rfl rfl rfl rfl rfl rfl
      exact .idle hloop.leave_loop (leave_loop_launching _)
  | write_error =>
      have hloop : n.Idle { n with send_loop := .exited } := .silent rfl rfl rfl rfl rfl rfl
      exact .idle hloop.leave_loop (leave_loop_launching _)
  | execute hjob hrun => exact .execute hjob hrun
  | tick htick => exact .tick htick
  | expire hfind hpending => exact .expire hfind hpending
  | halt on_worker force_try => exact .halt on_worker force_try
  | _ => exact .idle (.silent rfl rfl rfl rfl rfl rfl) rfl

-- The whole of launch(), and the arrival and the handling of a response by which a slave accepts.
section Sessions

def launchEvents : List NodeEvent := [.launch, .launch, .launch, .launch, .launch, .launch]

def accepting : Message := (Message.ofBody (.handshake_response ⟨.ACK, .SLAVE⟩)).get (by decide)

def acceptingEvents : List NodeEvent := [.incoming accepting, .dispatch_incoming, .execute 0 true]

end Sessions

end Node

end RoboCrisp.Comms
