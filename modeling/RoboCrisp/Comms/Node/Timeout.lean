import RoboCrisp.Comms.Node.Lemmas
import RoboCrisp.Transition.Run

namespace RoboCrisp.Comms

open RoboCrisp.Stream RoboCrisp.Util RoboCrisp.Transition

namespace Node

variable {n n' n'' : Node}

-- No timer runs, and no handler of one that has run out waits to be called.
def TimeoutFree (n : Node) : Prop :=
  (∀ action ∈ n.scheduler.m_actions, action.m_timer ≠ .pending) ∧
    ∀ job ∈ n.io_service, job.timesOut = false

instance (n : Node) : Decidable n.TimeoutFree := inferInstanceAs (Decidable (_ ∧ _))

-- An accepting response is handled after launch() has returned, and not when the time is up.
def AcceptsInTime (n : Node) : NodeEvent → Prop
  | .execute i _ => ∀ job ∈ n.io_service[i]?, job.accepts = true →
      n.launching = .returned ∧ ∀ job ∈ n.io_service, job.timesOut = false
  | _ => True

instance (n : Node) : (e : NodeEvent) → Decidable (n.AcceptsInTime e)
  | .execute i _ => inferInstanceAs (Decidable (∀ job ∈ n.io_service[i]?, job.accepts = true →
      n.launching = .returned ∧ ∀ job ∈ n.io_service, job.timesOut = false))
  | .launch | .incoming _ | .incoming_failed | .dispatch_incoming | .fetch | .write _
  | .dispatch_outgoing | .tick _ | .expire _ | .send _ | .halt _ _ => .isTrue trivial

-- Timers are at most stopped, and one that keeps running keeps its handle.
structure Calms (n n' : Node) : Prop where
  launching : n'.launching = n.launching
  handled : n'.handled = n.handled
  actions : ∀ action' ∈ n'.scheduler.m_actions, ∃ action ∈ n.scheduler.m_actions,
    action'.id = action.id ∧ (action'.m_timer = .pending → action.m_timer = .pending ∧
      (n.m_halt_action = some action.id → n'.m_halt_action = some action.id))
  jobs : ∀ job ∈ n'.io_service, job.timesOut = true → job ∈ n.io_service

theorem Calms.trans (h : n.Calms n') (h' : n'.Calms n'') : n.Calms n'' := by
  refine ⟨h'.launching.trans h.launching, h'.handled.trans h.handled, fun action'' hmem'' => ?_,
    fun job hjob hlate => h.jobs job (h'.jobs job hjob hlate) hlate⟩
  obtain ⟨action', hmem', hid', htimer'⟩ := h'.actions action'' hmem''
  obtain ⟨action, hmem, hid, htimer⟩ := h.actions action' hmem'
  refine ⟨action, hmem, hid'.trans hid, fun hpending => ?_⟩
  obtain ⟨hpending, hhandle'⟩ := htimer' hpending
  obtain ⟨hpending, hhandle⟩ := htimer hpending
  refine ⟨hpending, fun hheld => ?_⟩
  rw [← hid]
  exact hhandle' (hid ▸ hhandle hheld)

-- A step that has nothing to do with timers.
theorem Calms.same (hlaunching : n'.launching = n.launching) (hhandled : n'.handled = n.handled)
    (hactions : n'.scheduler.m_actions = n.scheduler.m_actions) (hhandle : n'.m_halt_action = n.m_halt_action)
    (hjobs : ∀ job ∈ n'.io_service, job.timesOut = true → job ∈ n.io_service) : n.Calms n' := by
  refine ⟨hlaunching, hhandled, fun action hmem => ⟨action, hactions ▸ hmem, rfl, fun hpending => ?_⟩, hjobs⟩
  exact ⟨hpending, fun hheld => hhandle.trans hheld⟩

theorem Idle.calms (h : n.Idle n') (hstage : n'.launching = n.launching) : n.Calms n' := by
  refine Calms.same hstage h.handled (congrArg _ h.scheduler) h.m_halt_action fun job hmem hlate => ?_
  obtain ⟨jobs, hjobs, hother⟩ := h.io_service
  rw [hjobs] at hmem
  rcases List.mem_append.mp hmem with hmem | hmem
  · exact hmem
  · rw [hother job hmem] at hlate
    exact absurd hlate Bool.false_ne_true

theorem Calms.refl (n : Node) : n.Calms n := Calms.same rfl rfl rfl rfl fun _ hjob _ => hjob

theorem Calms.post (n : Node) {job : Job} (h : job.timesOut = false) : n.Calms (n.post job) := by
  refine Calms.same rfl rfl rfl rfl fun job' hmem hlate => ?_
  rcases List.mem_append.mp hmem with hmem | hmem
  · exact hmem
  · rw [List.mem_singleton.mp hmem, h] at hlate
    exact absurd hlate Bool.false_ne_true

-- An update of one action that does not start its timer.
theorem Calms.update (n : Node) (id : Nat) (f : ScheduledAction NodeAction → ScheduledAction NodeAction)
    (hid : ∀ action, (f action).id = action.id) (htimer : ∀ action, (f action).m_timer = .pending →
      action.m_timer = .pending) : n.Calms { n with scheduler := n.scheduler.update_scheduled id f } := by
  refine ⟨rfl, rfl, fun action' hmem => ?_, fun _ hjob _ => hjob⟩
  obtain ⟨action, haction, ⟨-, rfl⟩ | ⟨-, rfl⟩⟩ := Scheduler.mem_update_scheduled hmem
  · exact ⟨action, haction, hid action, fun hpending => ⟨htimer action hpending, fun hheld => hheld⟩⟩
  · exact ⟨action', haction, rfl, fun hpending => ⟨hpending, fun hheld => hheld⟩⟩

theorem cancel_periodic_calms (n : Node) (id : Nat) : n.Calms (n.cancel_periodic id) := by
  have hscheduler : n.Calms { n with scheduler := n.scheduler.deactivate id } :=
    Calms.same rfl rfl rfl rfl fun _ hjob _ => hjob
  exact hscheduler.trans (Calms.post _ rfl)

theorem cancel_scheduled_calms (n : Node) (id : Nat) : n.Calms (n.cancel_scheduled id) := by
  have hpost : ({ n with scheduler := n.scheduler.abort_wait id } : Node).Calms (n.cancel_scheduled id) :=
    Calms.post _ rfl
  refine ⟨rfl, rfl, fun action' hmem => ?_, hpost.jobs⟩
  obtain ⟨action, haction, hid, htimer⟩ := Scheduler.mem_abort_wait hmem
  exact ⟨action, haction, hid, fun hpending => ⟨(htimer hpending).1, fun hheld => hheld⟩⟩

theorem cancel_sync_action_calms (n : Node) : n.Calms n.cancel_sync_action := by
  rw [cancel_sync_action]
  split
  · have hcancel := cancel_periodic_calms n
    exact (hcancel _).trans (Calms.same rfl rfl rfl rfl fun _ hjob _ => hjob)
  · exact Calms.same rfl rfl rfl rfl fun _ hjob _ => hjob

-- The timer that the handle stands for does not run any more.
theorem cancel_halt_action_calms (n : Node) : n.Calms n.cancel_halt_action := by
  rw [cancel_halt_action]
  split
  · rename_i held hheld
    obtain ⟨id, hhandle, hfind⟩ := Option.bind_eq_some_iff.mp hheld
    obtain rfl := (Scheduler.find_scheduled_some hfind).2
    refine ⟨rfl, rfl, fun action' hmem => ?_, (cancel_scheduled_calms n held.id).jobs⟩
    obtain ⟨action, haction, hid, htimer⟩ := Scheduler.mem_abort_wait hmem
    refine ⟨action, haction, hid, fun hpending => ⟨(htimer hpending).1, fun hsame => ?_⟩⟩
    rw [hhandle] at hsame
    exact absurd (Option.some.inj hsame).symm (htimer hpending).2
  · rename_i hheld
    refine ⟨rfl, rfl, fun action hmem => ⟨action, hmem, rfl, fun hpending => ⟨hpending, fun hsame => ?_⟩⟩,
      fun _ hjob _ => hjob⟩
    rw [hsame] at hheld
    exact absurd hheld (Scheduler.find_scheduled_of_mem hmem)

theorem wake_waiters_calms (n : Node) : n.Calms n.wake_waiters := by
  rw [wake_waiters]
  split
  · exact Calms.same rfl rfl rfl rfl fun _ hjob _ => hjob
  · exact Calms.refl n

theorem halt_calms (n : Node) (on_worker force_try : Bool) : n.Calms (n.halt on_worker force_try).1 := by
  rw [halt]
  split
  · exact Calms.refl n
  · split
    · exact Calms.refl n
    · have hflags : n.wake_waiters.Calms { n.wake_waiters with
          m_halting := true
          m_stopped := true
          socket_open := false } := Calms.same rfl rfl rfl rfl fun _ hjob _ => hjob
      have hall := (((wake_waiters_calms n).trans hflags).trans (cancel_sync_action_calms _)).trans
        (cancel_halt_action_calms _)
      exact hall.trans (Calms.same rfl rfl rfl rfl fun _ hjob _ => hjob)

theorem handshake_response_received_calms (n : Node) (hs : HandshakeResponse) (on_worker : Bool) :
    n.Calms (n.handshake_response_received hs on_worker) := by
  rw [handshake_response_received]
  split
  · refine (cancel_halt_action_calms n).trans ?_
    exact Calms.same rfl rfl rfl rfl fun _ hjob _ => hjob
  · exact halt_calms n on_worker false

theorem send_calms (n : Node) (m : Message) : n.Calms (n.send m) :=
  Calms.same rfl rfl rfl rfl fun _ hjob _ => hjob

theorem perform_calms {on_worker : Bool} {action : NodeAction} (h : n.perform on_worker action = some n') :
    n.Calms n' := by
  rcases perform_cases h with ⟨m, -, rfl⟩ | rfl
  · exact send_calms n m
  · exact halt_calms n on_worker false

theorem run_job_calms {on_worker : Bool} {job : Job} (h : n.run_job on_worker job = some n') :
    n.Calms n' := by
  cases run_job_handles h with
  | @reply _ m => exact send_calms n m
  | response hs => exact handshake_response_received_calms n hs on_worker
  | @expired id _ middle hperform =>
      have hfinish : n.Calms { n with scheduler := n.scheduler.finish id } :=
        Calms.update n id _ (fun _ => rfl) fun action hpending => nomatch hpending
      exact (hfinish.trans (perform_calms hperform)).trans (cancel_scheduled_calms middle id)
  | remove_scheduled id =>
      refine ⟨rfl, rfl, fun action hmem => ?_, fun _ hjob _ => hjob⟩
      exact ⟨action, (List.mem_filter.mp hmem).1, rfl, fun hpending => ⟨hpending, fun hheld => hheld⟩⟩
  | remove_periodic => exact Calms.same rfl rfl rfl rfl fun _ hjob _ => hjob
  | halt => exact halt_calms n on_worker false

theorem tick_calms {id : Nat} (h : n.tick id = some n') : n.Calms n' := by
  obtain ⟨action, -, h⟩ := Option.bind_eq_some_iff.mp h
  split at h
  · exact perform_calms h
  · obtain rfl := Option.some.inj h
    exact Calms.refl n

-- A timer that runs is the one that m_halt_action stands for, once launch() has stored that.
structure Armed (n : Node) : Prop where
  unset : n.launching.beforeTimer = true → n.scheduler.m_actions = []
  fresh : ∀ id, n.launching = .timer_set id → ∀ action ∈ n.scheduler.m_actions, action.id = id
  held : n.launching = .returned → ∀ action ∈ n.scheduler.m_actions, action.m_timer = .pending →
    n.m_halt_action = some action.id

structure Timed (n : Node) : Prop extends n.Armed where
  accepted : n.Accepted → n.launching = .returned ∧ n.TimeoutFree

theorem TimeoutFree.calms (h : n.TimeoutFree) (hcalms : n.Calms n') : n'.TimeoutFree := by
  refine ⟨fun action' hmem hpending => ?_, fun job hmem => ?_⟩
  · obtain ⟨action, haction, -, htimer⟩ := hcalms.actions action' hmem
    exact h.1 action haction (htimer hpending).1
  · rw [← Bool.not_eq_true]
    intro hlate
    rw [h.2 job (hcalms.jobs job hmem hlate)] at hlate
    exact absurd hlate Bool.false_ne_true

theorem Armed.calms (h : n.Armed) (hcalms : n.Calms n') : n'.Armed := by
  refine ⟨fun hstage => ?_, fun id hstage action' hmem => ?_, fun hstage action' hmem hpending => ?_⟩
  · rw [hcalms.launching] at hstage
    refine List.eq_nil_iff_forall_not_mem.mpr fun action' hmem => ?_
    obtain ⟨action, haction, -⟩ := hcalms.actions action' hmem
    rw [h.unset hstage] at haction
    exact absurd haction List.not_mem_nil
  · rw [hcalms.launching] at hstage
    obtain ⟨action, haction, hid, -⟩ := hcalms.actions action' hmem
    exact hid.trans (h.fresh id hstage action haction)
  · rw [hcalms.launching] at hstage
    obtain ⟨action, haction, hid, htimer⟩ := hcalms.actions action' hmem
    obtain ⟨hpending, hhandle⟩ := htimer hpending
    rw [hid]
    exact hhandle (h.held hstage action haction hpending)

theorem Timed.calms (h : n.Timed) (hcalms : n.Calms n') : n'.Timed := by
  refine ⟨h.toArmed.calms hcalms, fun haccepted => ?_⟩
  rw [Accepted, hcalms.handled] at haccepted
  obtain ⟨hstage, hfree⟩ := h.accepted haccepted
  exact ⟨hcalms.launching.trans hstage, hfree.calms hcalms⟩

-- Nothing is accepted before launch() has returned.
theorem Timed.not_accepted (h : n.Timed) (hstage : n.launching ≠ .returned) : ¬n.Accepted :=
  fun haccepted => hstage (h.accepted haccepted).1

-- A step of launch() that has nothing to do with the timer.
theorem Timed.launch (h : n.Timed) (hidle : n.Idle n') (hbefore : n.launching.beforeTimer = true)
    (hstage : ∀ id, n'.launching ≠ .timer_set id) : n'.Timed := by
  have hnone : n'.scheduler.m_actions = [] := by
    rw [hidle.scheduler]
    exact h.unset hbefore
  refine ⟨⟨fun _ => hnone, fun id hset => absurd hset (hstage id), fun _ action hmem => ?_⟩, fun haccepted => ?_⟩
  · rw [hnone] at hmem
    exact absurd hmem List.not_mem_nil
  · rw [Accepted, hidle.handled] at haccepted
    refine absurd haccepted (h.not_accepted fun hreturned => ?_)
    rw [hreturned] at hbefore
    exact absurd hbefore (by decide)

theorem cancel_halt_action_free (h : n.Armed) (hstage : n.launching = .returned)
    (hjobs : ∀ job ∈ n.io_service, job.timesOut = false) : n.cancel_halt_action.TimeoutFree := by
  have hcalms := cancel_halt_action_calms n
  have hnone : n.cancel_halt_action.m_halt_action = none := by
    rw [cancel_halt_action]
    split <;> rfl
  refine ⟨fun action' hmem hpending => ?_, fun job hmem => ?_⟩
  · obtain ⟨action, haction, -, htimer⟩ := hcalms.actions action' hmem
    obtain ⟨hpending, hhandle⟩ := htimer hpending
    have hheld := hhandle (h.held hstage action haction hpending)
    rw [hnone] at hheld
    exact absurd hheld (by simp)
  · rw [← Bool.not_eq_true]
    intro hlate
    rw [hjobs job (hcalms.jobs job hmem hlate)] at hlate
    exact absurd hlate Bool.false_ne_true

theorem execute_timed {i : Nat} {on_worker : Bool} {job : Job} (hinv : n.Timed)
    (hallowed : n.AcceptsInTime (.execute i on_worker)) (hjob : n.io_service[i]? = some job)
    (hrun : { n with io_service := n.io_service.eraseIdx i, handled := n.handled ++ [job] }.run_job
      on_worker job = some n') : n'.Timed := by
  have hcalms := run_job_calms hrun
  have hfewer : ∀ job', job' ∈ n.io_service.eraseIdx i → job' ∈ n.io_service :=
    fun _ => List.mem_of_mem_eraseIdx
  have harmed : ({ n with
      io_service := n.io_service.eraseIdx i
      handled := n.handled ++ [job] } : Node).Armed := ⟨hinv.unset, hinv.fresh, hinv.held⟩
  by_cases hack : job.accepts = true
  · -- the handle is stored, so that the handler finds the timer
    obtain ⟨hstage, hjobs⟩ := hallowed job hjob hack
    refine ⟨harmed.calms hcalms, fun _ => ⟨hcalms.launching.trans hstage, ?_⟩⟩
    have hfree := cancel_halt_action_free harmed hstage fun job hmem => hjobs job (hfewer _ hmem)
    obtain ⟨hs, rfl, hown⟩ := Job.accepts_eq_true hack
    obtain rfl := Option.some.inj hrun
    rw [handshake_response_received, if_pos hown]
    exact hfree
  · refine Timed.calms ⟨harmed, fun haccepted => ?_⟩ hcalms
    obtain ⟨job', hmem, hown⟩ := haccepted
    rcases List.mem_append.mp hmem with hmem | hmem
    · obtain ⟨hstage, hfree⟩ := hinv.accepted ⟨job', hmem, hown⟩
      exact ⟨hstage, hfree.1, fun job hjob => hfree.2 job (hfewer _ hjob)⟩
    · rw [List.mem_singleton.mp hmem] at hown
      exact absurd hown hack

theorem expire_timed {id : Nat} {action : ScheduledAction NodeAction} (hinv : n.Timed)
    (hfind : n.scheduler.find_scheduled id = some action) (hpending : action.m_timer = .pending) :
    ({ n with scheduler := n.scheduler.expire id }.post (.timer_expiry_handler id)).Timed := by
  have hcalms : n.Calms { n with scheduler := n.scheduler.expire id } :=
    Calms.update n id _ (fun _ => rfl) fun action hpending => nomatch hpending
  have harmed := hinv.toArmed.calms hcalms
  refine ⟨⟨harmed.unset, harmed.fresh, harmed.held⟩, fun haccepted => ?_⟩
  exact absurd hpending ((hinv.accepted haccepted).2.1 action (Scheduler.find_scheduled_some hfind).1)

theorem step_timed [Heap] {e : NodeEvent} (hinv : n.Timed) (hallowed : n.AcceptsInTime e)
    (hstep : n.step e = some n') : n'.Timed := by
  cases step_schedules hstep with
  | idle hidle hstage => exact hinv.calms (hidle.calms hstage)
  | launch hidle hbefore hstage => exact hinv.launch hidle hbefore hstage
  | set_timer hstage =>
      have hnone : n.scheduler.m_actions = [] := hinv.unset (congrArg _ hstage)
      refine ⟨⟨nofun, fun id hset action hmem => ?_, nofun⟩, fun haccepted => ?_⟩
      · change action ∈ n.scheduler.m_actions ++ [_] at hmem
        rw [hnone, List.nil_append, List.mem_singleton] at hmem
        rw [hmem]
        exact LaunchStage.timer_set.inj hset
      · exact absurd haccepted (hinv.not_accepted (by rw [hstage]; decide))
  | @store_timer id hstage =>
      refine ⟨⟨nofun, fun _ => nofun, fun _ action hmem _ => ?_⟩, fun haccepted => ?_⟩
      · exact congrArg some (hinv.fresh id hstage action hmem).symm
      · exact absurd haccepted (hinv.not_accepted (by rw [hstage]; simp))
  | execute hjob hrun => exact execute_timed hinv hallowed hjob hrun
  | tick htick => exact hinv.calms (tick_calms htick)
  | expire hfind hpending => exact expire_timed hinv hfind hpending
  | halt on_worker force_try => exact hinv.calms (halt_calms n on_worker force_try)

theorem make_timed (version : UInt32) (_role : NodeRole) (configuration : Configuration) :
    (make version _role configuration).Timed := by
  refine ⟨⟨fun _ => rfl, fun _ => nofun, nofun⟩, fun haccepted => ?_⟩
  obtain ⟨hs, hmem, -⟩ := haccepted
  exact absurd hmem List.not_mem_nil

-- Where every accepting response is handled after launch() and before the time is up, an
-- accepted node has no timer left that could halt it.
theorem accepted_timeout_free [Heap] {version : UInt32} {_role : NodeRole}
    {configuration : Configuration} {trace : List NodeEvent}
    (hrun : Run step AcceptsInTime (make version _role configuration) trace n) (h : n.Accepted) :
    n.TimeoutFree :=
  ((hrun.invariant (make_timed version _role configuration) step_timed).accepted h).2

def acceptedTrace : List NodeEvent := launchEvents ++ acceptingEvents

def accepted : Node :=
  (acceptedTrace.foldlM (guarded (@step Heap.zeros) AcceptsInTime) (make 1 .MASTER (.empty 0))).get
    (by decide)

theorem accepted_free : accepted.TimeoutFree :=
  @accepted_timeout_free _ Heap.zeros 1 .MASTER (.empty 0) acceptedTrace (Run.of_foldlM (Option.some_get _).symm)
    (by decide)

-- The response is handled while launch() still has to set the timer.
def racingTrace : List NodeEvent :=
  launchEvents.take 3 ++ acceptingEvents ++ launchEvents.drop 3

def raced : Node :=
  (racingTrace.foldlM (guarded (@step Heap.zeros) Always) (make 1 .MASTER (.empty 0))).get (by decide)

theorem raced_not_free :
    Run (@step Heap.zeros) Always (make 1 .MASTER (.empty 0)) racingTrace raced ∧ raced.Accepted ∧
      ¬raced.TimeoutFree :=
  ⟨Run.of_foldlM (Option.some_get _).symm, by decide, by decide⟩

end Node

end RoboCrisp.Comms
