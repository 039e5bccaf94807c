import RoboCrisp.Comms.Node.Lemmas
import RoboCrisp.Transition.Run

namespace RoboCrisp.Comms

open RoboCrisp.Stream RoboCrisp.Util RoboCrisp.Transition

def Job.removesPeriodic : Job → Bool
  | .remove_periodic _ => true
  | _ => false

namespace Node

variable {n n' n'' : Node}

-- At most one action is active. After a halt() that returned true there is none left, once the
-- removals have been run.
def SyncSingle (n : Node) : Prop :=
  (n.scheduler.periodic.filter PeriodicAction.active).length ≤ 1 ∧
    (n.m_halting = true → (∀ job ∈ n.io_service, job.removesPeriodic = false) →
      n.scheduler.periodic = [])

-- An accepting response is the first one, and is handled before any halt() that returns true.
def AcceptsOnce (n : Node) : NodeEvent → Prop
  | .execute i _ => ∀ job ∈ n.io_service[i]?, job.accepts = true → ¬n.Accepted ∧ n.m_halting = false
  | _ => True

instance (n : Node) : (e : NodeEvent) → Decidable (n.AcceptsOnce e)
  | .execute i _ => inferInstanceAs (Decidable (∀ job ∈ n.io_service[i]?, job.accepts = true →
      ¬n.Accepted ∧ n.m_halting = false))
  | .launch | .incoming _ | .incoming_failed | .dispatch_incoming | .fetch | .write _
  | .dispatch_outgoing | .tick _ | .expire _ | .send _ | .halt _ _ => .isTrue trivial

-- The handle covers the one action as long as it is active. After that its removal is posted.
structure Synced (n : Node) : Prop where
  unscheduled : ¬n.Accepted → n.scheduler.periodic = []
  single : n.scheduler.periodic.length ≤ 1
  held : ∀ action ∈ n.scheduler.periodic, action.active = true →
    n.m_sync_action = some action.id ∧ n.m_halting = false
  cancelled : ∀ action ∈ n.scheduler.periodic, action.active = false →
    .remove_periodic action.id ∈ n.io_service

theorem Synced.syncSingle (h : n.Synced) : n.SyncSingle := by
  refine ⟨le_trans (List.length_filter_le _ _) h.single, fun hhalting hremoved => ?_⟩
  refine List.eq_nil_iff_forall_not_mem.mpr fun action hmem => ?_
  cases hactive : action.active with
  | true =>
      have hrunning := (h.held action hmem hactive).2
      rw [hhalting] at hrunning
      exact absurd hrunning Bool.noConfusion
  | false => exact absurd (hremoved _ (h.cancelled action hmem hactive)) Bool.noConfusion

-- A step that leaves the periodic actions and their handle alone.
structure KeepsSync (n n' : Node) : Prop where
  periodic : n'.scheduler.periodic = n.scheduler.periodic
  m_sync_action : n'.m_sync_action = n.m_sync_action
  m_halting : n'.m_halting = n.m_halting
  handled : n'.handled = n.handled
  jobs : ∀ job ∈ n.io_service, job ∈ n'.io_service

theorem Synced.keeps (h : n.Synced) (hkeeps : n.KeepsSync n') : n'.Synced := by
  refine ⟨fun hfirst => ?_, ?_, fun action hmem hactive => ?_, fun action hmem hcancelled => ?_⟩
  · rw [Accepted, hkeeps.handled] at hfirst
    exact hkeeps.periodic.trans (h.unscheduled hfirst)
  · rw [hkeeps.periodic]
    exact h.single
  · rw [hkeeps.periodic] at hmem
    rw [hkeeps.m_sync_action, hkeeps.m_halting]
    exact h.held action hmem hactive
  · rw [hkeeps.periodic] at hmem
    exact hkeeps.jobs _ (h.cancelled action hmem hcancelled)

theorem KeepsSync.post (n : Node) (job : Job) : n.KeepsSync (n.post job) :=
  ⟨rfl, rfl, rfl, rfl, fun _ hmem => List.mem_append_left _ hmem⟩

theorem KeepsSync.send (n : Node) (m : Message) : n.KeepsSync (n.send m) :=
  ⟨rfl, rfl, rfl, rfl, fun _ hmem => hmem⟩

theorem KeepsSync.trans (h : n.KeepsSync n') (h' : n'.KeepsSync n'') : n.KeepsSync n'' :=
  ⟨h'.periodic.trans h.periodic, h'.m_sync_action.trans h.m_sync_action, h'.m_halting.trans h.m_halting,
    h'.handled.trans h.handled, fun job hmem => h'.jobs job (h.jobs job hmem)⟩

-- The timers of scheduled actions have nothing to do with the slots.
theorem KeepsSync.update (n : Node) (id : Nat) (f : ScheduledAction NodeAction → ScheduledAction NodeAction) :
    n.KeepsSync { n with scheduler := n.scheduler.update_scheduled id f } :=
  ⟨rfl, rfl, rfl, rfl, fun _ hmem => hmem⟩

theorem cancel_scheduled_keepsSync (n : Node) (id : Nat) : n.KeepsSync (n.cancel_scheduled id) :=
  (KeepsSync.update n id _).trans (KeepsSync.post _ _)

theorem cancel_halt_action_keepsSync (n : Node) : n.KeepsSync n.cancel_halt_action := by
  rw [cancel_halt_action]
  split
  · have hcancel := cancel_scheduled_keepsSync n
    exact (hcancel _).trans ⟨rfl, rfl, rfl, rfl, fun _ hmem => hmem⟩
  · exact ⟨rfl, rfl, rfl, rfl, fun _ hmem => hmem⟩

theorem wake_waiters_keepsSync (n : Node) : n.KeepsSync n.wake_waiters := by
  rw [wake_waiters]
  split <;> exact ⟨rfl, rfl, rfl, rfl, fun _ hmem => hmem⟩

theorem Idle.keepsSync (h : n.Idle n') : n.KeepsSync n' := by
  obtain ⟨jobs, hjobs, -⟩ := h.io_service
  refine ⟨congrArg _ h.scheduler, h.m_sync_action, h.m_halting, h.handled, fun job hmem => ?_⟩
  rw [hjobs]
  exact List.mem_append_left _ hmem

theorem cancel_sync_action_length (n : Node) :
    n.cancel_sync_action.scheduler.periodic.length = n.scheduler.periodic.length := by
  rw [cancel_sync_action]
  split
  · rename_i action _
    have hperiodic := n.scheduler.periodic_deactivate action.id
    exact (congrArg List.length hperiodic).trans (List.length_map _)
  · rfl

-- An action that is active is the one that the handle stands for, so that it is found.
theorem cancel_sync_action_cancelled
    (hheld : ∀ action ∈ n.scheduler.periodic, action.active = true → n.m_sync_action = some action.id)
    (hposted : ∀ action ∈ n.scheduler.periodic, action.active = false →
      .remove_periodic action.id ∈ n.io_service) :
    ∀ action ∈ n.cancel_sync_action.scheduler.periodic,
      action.active = false ∧ .remove_periodic action.id ∈ n.cancel_sync_action.io_service := by
  intro action hmem
  rw [cancel_sync_action] at hmem ⊢
  split at hmem
  · rename_i target htarget
    obtain ⟨id, hhandle, hfind⟩ := Option.bind_eq_some_iff.mp htarget
    obtain rfl := (Scheduler.find_periodic_some hfind).2
    change action ∈ (n.scheduler.deactivate target.id).periodic at hmem
    change action.active = false ∧ _ ∈ n.io_service ++ [.remove_periodic target.id]
    rw [Scheduler.periodic_deactivate] at hmem
    obtain ⟨old, hold, rfl⟩ := List.mem_map.mp hmem
    by_cases hid : old.id = target.id
    · rw [if_pos hid, hid]
      exact ⟨rfl, List.mem_append_right _ List.mem_cons_self⟩
    · rw [if_neg hid]
      have hinactive : old.active = false := by
        rw [← Bool.not_eq_true]
        intro hactive
        have hsame := hheld old hold hactive
        rw [hhandle] at hsame
        exact hid (Option.some.inj hsame).symm
      exact ⟨hinactive, List.mem_append_left _ (hposted old hold hinactive)⟩
  · rename_i hnone
    have hinactive : action.active = false := by
      rw [← Bool.not_eq_true]
      intro hactive
      rw [hheld action hmem hactive] at hnone
      exact absurd hnone (Scheduler.find_periodic_of_mem hmem)
    exact ⟨hinactive, hposted action hmem hinactive⟩

-- What m_halting stands for.
theorem halt_m_halting (n : Node) (on_worker force_try : Bool) :
    (n.halt on_worker force_try).1.m_halting = (n.m_halting || (n.halt on_worker force_try).2) := by
  rw [halt]
  split
  · rename_i hhalting
    rw [hhalting, Bool.true_or]
  · split
    · rw [Bool.or_false]
    · rw [Bool.or_true]
      refine (cancel_halt_action_keepsSync _).m_halting.trans ?_
      rw [cancel_sync_action]
      split <;> rfl

theorem halt_synced (h : n.Synced) (on_worker force_try : Bool) :
    (n.halt on_worker force_try).1.Synced := by
  rw [halt]
  split
  · exact h
  · split
    · exact h
    · have hwoken := h.keeps (wake_waiters_keepsSync n)
      let stopped : Node := { n.wake_waiters with m_halting := true, m_stopped := true, socket_open := false }
      have hcancelled := @cancel_sync_action_cancelled stopped
        (fun action hmem hactive => (hwoken.held action hmem hactive).1) hwoken.cancelled
      have hlength := cancel_sync_action_length stopped
      have hsync : stopped.cancel_sync_action.Synced := by
        refine ⟨fun hfirst => ?_, ?_, fun action hmem hactive => ?_, fun action hmem _ => ?_⟩
        · rw [Accepted, (cancel_sync_action_acts stopped).handled] at hfirst
          rw [← List.length_eq_zero_iff, hlength, List.length_eq_zero_iff]
          exact hwoken.unscheduled hfirst
        · rw [hlength]
          exact hwoken.single
        · rw [(hcancelled action hmem).1] at hactive
          exact absurd hactive Bool.false_ne_true
        · exact (hcancelled action hmem).2
      have hall := hsync.keeps (cancel_halt_action_keepsSync _)
      exact { hall with }

theorem perform_synced {on_worker : Bool} {action : NodeAction} (h : n.Synced)
    (hperform : n.perform on_worker action = some n') : n'.Synced := by
  rcases perform_cases hperform with ⟨m, -, rfl⟩ | rfl
  · exact h.keeps (KeepsSync.send n m)
  · exact halt_synced h on_worker false

-- The first action that is scheduled, with nothing halted.
theorem accept_synced {hs : HandshakeResponse} {on_worker : Bool} (hnone : n.scheduler.periodic = [])
    (hhalting : n.m_halting = false) (haccepted : n.Accepted) (hack : hs.acknowledge = .ACK) :
    (n.handshake_response_received hs on_worker).Synced := by
  have hacts := handshake_response_received_acts n hs on_worker
  have hkeeps := cancel_halt_action_keepsSync n
  have hperiodic := n.cancel_halt_action.scheduler.perm_periodic_schedule sync_interval .send_sync
  rw [hkeeps.periodic, hnone, List.perm_singleton] at hperiodic
  rw [handshake_response_received, if_pos hack] at hacts ⊢
  refine ⟨fun hfirst => ?_, ?_, fun action hmem _ => ?_, fun action hmem hactive => ?_⟩
  · rw [Accepted, hacts.handled] at hfirst
    exact absurd haccepted hfirst
  · exact le_of_eq (congrArg List.length hperiodic)
  · change action ∈ (n.cancel_halt_action.scheduler.schedule _ _).1.periodic at hmem
    rw [hperiodic, List.mem_singleton] at hmem
    rw [hmem]
    exact ⟨rfl, hkeeps.m_halting.trans hhalting⟩
  · change action ∈ (n.cancel_halt_action.scheduler.schedule _ _).1.periodic at hmem
    rw [hperiodic, List.mem_singleton] at hmem
    rw [hmem] at hactive
    exact absurd hactive Bool.noConfusion

-- A handler other than that of an accepting response.
theorem run_job_synced {on_worker : Bool} {job : Job} (h : n.Synced) (hother : job.accepts ≠ true)
    (hrun : n.run_job on_worker job = some n') (hremoved : ∀ id, job ≠ .remove_periodic id) :
    n'.Synced := by
  cases run_job_handles hrun with
  | @reply _ m => exact h.keeps (KeepsSync.send n m)
  | response hs =>
      have hnack : ¬hs.acknowledge = .ACK := fun hack => hother (decide_eq_true hack)
      rw [handshake_response_received, if_neg hnack]
      exact halt_synced h on_worker false
  | @expired id _ middle hperform =>
      have hfinished : ({ n with scheduler := n.scheduler.finish id } : Node).Synced :=
        h.keeps (KeepsSync.update n id _)
      exact (perform_synced hfinished hperform).keeps (cancel_scheduled_keepsSync middle id)
  | remove_scheduled => exact { h with }
  | remove_periodic id => exact absurd rfl (hremoved id)
  | halt => exact halt_synced h on_worker false

theorem accepted_of_handled {jobs jobs' : List Job} (h : n.Accepted) (hhandled : n.handled = jobs)
    (hmore : n'.handled = jobs ++ jobs') : n'.Accepted := by
  obtain ⟨job, hmem, hack⟩ := h
  refine ⟨job, ?_, hack⟩
  rw [hmore, ← hhandled]
  exact List.mem_append_left _ hmem

theorem remove_synced {i id : Nat} (h : n.Synced) (hjob : n.io_service[i]? = some (.remove_periodic id)) :
    ({ n with
        io_service := n.io_service.eraseIdx i
        handled := n.handled ++ [.remove_periodic id]
        scheduler := n.scheduler.remove_periodic id } : Node).Synced := by
  have hperiodic := n.scheduler.periodic_remove_periodic id
  have hless : ∀ action ∈ (n.scheduler.remove_periodic id).periodic,
      action ∈ n.scheduler.periodic ∧ action.id ≠ id := by
    intro action hmem
    rw [hperiodic] at hmem
    obtain ⟨hmem, hid⟩ := List.mem_filter.mp hmem
    exact ⟨hmem, of_decide_eq_true hid⟩
  refine ⟨fun hfirst => ?_, ?_, fun action hmem hactive => ?_, fun action hmem hcancelled => ?_⟩
  · have hnone := h.unscheduled fun haccepted => hfirst (accepted_of_handled haccepted rfl rfl)
    refine List.eq_nil_iff_forall_not_mem.mpr fun action hmem => ?_
    have hmem := (hless action hmem).1
    rw [hnone] at hmem
    exact absurd hmem List.not_mem_nil
  · have hlength := List.length_filter_le (fun action => decide (action.id ≠ id)) n.scheduler.periodic
    rw [← hperiodic] at hlength
    exact le_trans hlength h.single
  · exact h.held action (hless action hmem).1 hactive
  · obtain ⟨hmem, hid⟩ := hless action hmem
    refine mem_eraseIdx_of_ne hjob (fun hsame => ?_) (h.cancelled action hmem hcancelled)
    exact hid (Job.remove_periodic.inj hsame)

theorem take_synced {i : Nat} {job : Job} (h : n.Synced) (hjob : n.io_service[i]? = some job)
    (hother : job.removesPeriodic = false) :
    ({ n with io_service := n.io_service.eraseIdx i, handled := n.handled ++ [job] } : Node).Synced := by
  refine ⟨fun hfirst => ?_, h.single, h.held, fun action hmem hcancelled => ?_⟩
  · exact h.unscheduled fun haccepted => hfirst (accepted_of_handled haccepted rfl rfl)
  · refine mem_eraseIdx_of_ne hjob (fun hsame => ?_) (h.cancelled action hmem hcancelled)
    rw [← hsame] at hother
    exact absurd hother Bool.noConfusion

theorem execute_synced {i : Nat} {on_worker : Bool} {job : Job} (hinv : n.Synced)
    (hallowed : n.AcceptsOnce (.execute i on_worker)) (hjob : n.io_service[i]? = some job)
    (hrun : { n with io_service := n.io_service.eraseIdx i, handled := n.handled ++ [job] }.run_job
      on_worker job = some n') : n'.Synced := by
  by_cases hack : job.accepts = true
  · obtain ⟨hfirst, hhalting⟩ := hallowed job hjob hack
    obtain ⟨hs, rfl, hown⟩ := Job.accepts_eq_true hack
    obtain rfl := Option.some.inj hrun
    have hhandled : Job.handshake_response_received hs ∈ n.handled ++ [.handshake_response_received hs] :=
      List.mem_append_right _ List.mem_cons_self
    exact accept_synced (hinv.unscheduled hfirst) hhalting ⟨_, hhandled, hack⟩ hown
  · cases hremoves : job.removesPeriodic with
    | true =>
        cases job with
        | remove_periodic id =>
            obtain rfl := Option.some.inj hrun
            exact remove_synced hinv hjob
        | _ => exact absurd hremoves Bool.false_ne_true
    | false =>
        refine run_job_synced (take_synced hinv hjob hremoves) hack hrun fun id hsame => ?_
        rw [hsame] at hremoves
        exact absurd hremoves Bool.noConfusion

theorem tick_synced {id : Nat} (h : n.Synced) (htick : n.tick id = some n') : n'.Synced := by
  obtain ⟨action, -, htick⟩ := Option.bind_eq_some_iff.mp htick
  split at htick
  · exact perform_synced h htick
  · obtain rfl := Option.some.inj htick
    exact h

theorem step_synced [Heap] {e : NodeEvent} (hinv : n.Synced) (hallowed : n.AcceptsOnce e)
    (hstep : n.step e = some n') : n'.Synced := by
  cases step_schedules hstep with
  | idle hidle => exact hinv.keeps hidle.keepsSync
  | launch hidle => exact hinv.keeps hidle.keepsSync
  | set_timer => exact { hinv with }
  | store_timer => exact { hinv with }
  | execute hjob hrun => exact execute_synced hinv hallowed hjob hrun
  | tick htick => exact tick_synced hinv htick
  | @expire id => exact hinv.keeps ((KeepsSync.update n id _).trans (KeepsSync.post _ _))
  | halt on_worker force_try => exact halt_synced hinv on_worker force_try

theorem make_synced (version : UInt32) (_role : NodeRole) (configuration : Configuration) :
    (make version _role configuration).Synced :=
  ⟨fun _ => rfl, Nat.zero_le 1, fun _ hmem => absurd hmem List.not_mem_nil,
    fun _ hmem => absurd hmem List.not_mem_nil⟩

-- With one accepting response at most, handled before any halt() that returns true, the one
-- handle covers all that the scheduler has got.
theorem sync_single [Heap] {version : UInt32} {_role : NodeRole} {configuration : Configuration}
    {trace : List NodeEvent}
    (hrun : Run step AcceptsOnce (make version _role configuration) trace n) : n.SyncSingle :=
  (hrun.invariant (make_synced version _role configuration) step_synced).syncSingle

-- The node is accepted and halted, and the removals are run.
def syncTrace : List NodeEvent :=
  launchEvents ++ acceptingEvents ++ [.halt false false, .execute 0 false, .execute 0 false]

def synced : Node :=
  (syncTrace.foldlM (guarded (@step Heap.zeros) AcceptsOnce) (make 1 .MASTER (.empty 0))).get (by decide)

theorem synced_single : synced.SyncSingle :=
  @sync_single _ Heap.zeros 1 .MASTER (.empty 0) syncTrace (Run.of_foldlM (Option.some_get _).symm)

-- The peer accepts twice.
def repeatedTrace : List NodeEvent := launchEvents ++ acceptingEvents ++ [.execute 0 true] ++ acceptingEvents

def repeated : Node :=
  (repeatedTrace.foldlM (guarded (@step Heap.zeros) Always) (make 1 .MASTER (.empty 0))).get (by decide)

theorem repeated_not_single :
    Run (@step Heap.zeros) Always (make 1 .MASTER (.empty 0)) repeatedTrace repeated ∧
      ¬repeated.SyncSingle :=
  ⟨Run.of_foldlM (Option.some_get _).symm, fun h => absurd h.1 (by decide)⟩

end Node

end RoboCrisp.Comms
