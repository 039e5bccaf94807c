import RoboCrisp.Comms.Node.Lemmas
import RoboCrisp.Transition.Run

namespace RoboCrisp.Comms

open RoboCrisp.Stream RoboCrisp.Util RoboCrisp.Transition

-- launch() has not come to the loop that sends.
def LaunchStage.beforeSendLoop : LaunchStage → Bool
  | .uncalled => true
  | .sent_handshake => true
  | .launched_workers => true
  | .spawned_receive_loop => true
  | _ => false

namespace Node

variable {n n' : Node} {ms : List Message}

-- What the loop has taken and the socket has not, and the queue behind that.
def unwritten (n : Node) : List Message :=
  match n.send_loop with
  | .writing message => message :: n.m_outgoing_queue.items
  | _ => n.m_outgoing_queue.items

-- A write is only put off while nothing else is queued.
def RetryAlone (n : Node) : NodeEvent → Prop
  | .write .try_again => n.m_outgoing_queue.items = []
  | _ => True

instance (n : Node) : (e : NodeEvent) → Decidable (n.RetryAlone e)
  | .write .try_again => inferInstanceAs (Decidable (n.m_outgoing_queue.items = []))
  | .write .success | .write .error | .launch | .incoming _ | .incoming_failed | .dispatch_incoming
  | .fetch | .dispatch_outgoing | .execute _ _ | .tick _ | .expire _ | .send _ | .halt _ _ => .isTrue trivial

section Keeps

variable {R : List Message → List Message → Prop}

-- Every message that was given to send() is written or waits for its turn, until the loop ends. `R`
-- says what may have become of the order.
structure Keeps (R : List Message → List Message → Prop) (n : Node) : Prop where
  written : ∃ rest, R n.sent (n.written ++ rest)
  sent : n.send_loop ≠ .exited → R n.sent (n.written ++ n.unwritten)
  unspawned : n.launching.beforeSendLoop = true → n.send_loop = .unspawned

-- What is sent later comes behind everything else.
def Appends (R : List Message → List Message → Prop) : Prop :=
  ∀ sent kept more, R sent kept → R (sent ++ more) (kept ++ more)

theorem Keeps.acts (happends : Appends R) (h : n.Keeps R) (hacts : n.Acts ms n') : n'.Keeps R := by
  have hunwritten : n'.unwritten = n.unwritten ++ ms := by
    rw [unwritten, unwritten, hacts.send_loop, hacts.items]
    split <;> rfl
  refine ⟨?_, fun hloop => ?_, fun hstage => ?_⟩
  · obtain ⟨rest, hrest⟩ := h.written
    rw [hacts.written, hacts.sent]
    exact ⟨rest ++ ms, List.append_assoc _ _ _ ▸ happends _ _ ms hrest⟩
  · rw [hacts.send_loop] at hloop
    rw [hacts.sent, hacts.written, hunwritten, ← List.append_assoc]
    exact happends _ _ ms (h.sent hloop)
  · rw [hacts.launching] at hstage
    rw [hacts.send_loop, h.unspawned hstage]

-- A turn of the loop, which has been spawned. With `exited` nothing is written any more.
theorem Keeps.turn (h : n.Keeps R) (hspawned : n.send_loop ≠ .unspawned)
    (hstage : n'.launching = n.launching) (hwritten : ∃ rest, R n'.sent (n'.written ++ rest))
    (hloop : n'.send_loop ≠ .exited → R n'.sent (n'.written ++ n'.unwritten)) : n'.Keeps R :=
  ⟨hwritten, hloop, fun hbefore => absurd (h.unspawned (hstage ▸ hbefore)) hspawned⟩

-- Only a message that is put behind others can lose its place.
theorem Keeps.step [Heap] {e : NodeEvent} (hinv : n.Keeps R) (happends : Appends R)
    (hretry : e = .write .try_again → ∀ m, R n.sent (n.written ++ m :: n.m_outgoing_queue.items) →
      R n.sent (n.written ++ (n.m_outgoing_queue.items ++ [m])))
    (hstep : n.step e = some n') : n'.Keeps R := by
  cases step_effect hstep with
  | refuse => exact { hinv with unspawned := fun h => absurd h Bool.false_ne_true }
  | @greet m hstage =>
      exact { hinv.acts happends (Acts.send n m) with
        unspawned := fun _ => hinv.unspawned (congrArg _ hstage) }
  | start_workers hstage => exact { hinv with unspawned := fun _ => hinv.unspawned (congrArg _ hstage) }
  | spawn_receive_loop hstage => exact { hinv with unspawned := fun _ => hinv.unspawned (congrArg _ hstage) }
  | spawn_send_loop hstage =>
      have hloop := hinv.unspawned (congrArg _ hstage)
      have hsent := hinv.sent (by rw [hloop]; decide)
      rw [unwritten, hloop] at hsent
      exact ⟨hinv.written, fun _ => hsent, fun h => absurd h Bool.false_ne_true⟩
  | set_timer => exact { hinv with unspawned := fun h => absurd h Bool.false_ne_true }
  | store_timer => exact { hinv with unspawned := fun h => absurd h Bool.false_ne_true }
  | incoming => exact { hinv with }
  | incoming_stopped => exact { hinv with }
  | incoming_failed =>
      have hloop : ({ n with receive_loop := .exited } : Node).Keeps R := { hinv with }
      exact hloop.acts happends (leave_loop_acts _)
  | ignore => exact { hinv with }
  | deliver => exact { hinv with }
  | fetch_stopped hloop =>
      exact hinv.turn (by rw [hloop]; decide) rfl hinv.written fun h => absurd rfl h
  | fetch_aborted hloop =>
      have hturn : ({ n with send_loop := .exited } : Node).Keeps R :=
        hinv.turn (by rw [hloop]; decide) rfl hinv.written fun h => absurd rfl h
      exact hturn.acts happends (leave_loop_acts _)
  | fetch hloop hitems =>
      have hsent := hinv.sent (by rw [hloop]; decide)
      rw [unwritten, hloop, hitems] at hsent
      exact hinv.turn (by rw [hloop]; decide) rfl hinv.written fun _ => hsent
  | @write_success m hloop =>
      have hsent := hinv.sent (by rw [hloop]; simp)
      rw [unwritten, hloop] at hsent
      have hwritten : R n.sent (n.written ++ [m] ++ n.m_outgoing_queue.items) := by
        rw [List.append_assoc, List.singleton_append]
        exact hsent
      exact hinv.turn (by rw [hloop]; simp) rfl ⟨_, hwritten⟩ fun _ => hwritten
  | @write_try_again m hloop =>
      have hsent := hinv.sent (by rw [hloop]; simp)
      rw [unwritten, hloop] at hsent
      refine hinv.turn (by rw [hloop]; simp) rfl hinv.written fun _ => ?_
      rw [unwritten, SharedQueue.items_emplace]
      exact hretry rfl m hsent
  | @write_error m hloop =>
      have hturn : ({ n with send_loop := .exited } : Node).Keeps R :=
        hinv.turn (by rw [hloop]; simp) rfl hinv.written fun h => absurd rfl h
      exact hturn.acts happends (leave_loop_acts _)
  | @dispatch_outgoing m hloop =>
      have hsent := hinv.sent (by rw [hloop]; simp)
      rw [unwritten, hloop] at hsent
      exact hinv.turn (by rw [hloop]; simp) rfl hinv.written fun _ => hsent
  | @execute i on_worker job _ hjob hrun =>
      obtain ⟨ms, hacts, -⟩ := run_job_acts hrun
      have htaken : ({ n with
          io_service := n.io_service.eraseIdx i
          handled := n.handled ++ [job] } : Node).Keeps R := { hinv with }
      exact htaken.acts happends hacts
  | tick htick =>
      obtain ⟨ms, hacts, -⟩ := tick_acts htick
      exact hinv.acts happends hacts
  | expire => exact hinv.acts happends (expire_acts n _)
  | send m => exact hinv.acts happends (Acts.send n m)
  | halt on_worker force_try => exact hinv.acts happends (halt_acts n on_worker force_try)

theorem make_keeps (hrefl : R [] []) (version : UInt32) (_role : NodeRole) (configuration : Configuration) :
    (make version _role configuration).Keeps R := ⟨⟨[], hrefl⟩, fun _ => hrefl, fun _ => rfl⟩

end Keeps

section Run

variable [Heap] {version : UInt32} {_role : NodeRole} {configuration : Configuration}
  {trace : List NodeEvent}

theorem run_keeps_order (hrun : Run step RetryAlone (make version _role configuration) trace n) :
    n.Keeps (· = ·) := by
  refine hrun.invariant (make_keeps rfl version _role configuration) fun hinv hallowed hstep => ?_
  refine hinv.step (fun _ _ _ h => by rw [h]) ?_ hstep
  rintro rfl m hsent
  rwa [show _ = ([] : List Message) from hallowed] at hsent ⊢

end Run

-- As long as writes are only put off with nothing else in the queue, the socket gets the
-- messages in the order in which they were sent, without repetition or omission.
theorem written_in_order [Heap] {version : UInt32} {_role : NodeRole} {configuration : Configuration}
    {trace : List NodeEvent} (hrun : Run step RetryAlone (make version _role configuration) trace n) :
    n.written <+: n.sent := by
  obtain ⟨rest, hrest⟩ := (run_keeps_order hrun).written
  exact ⟨rest, hrest.symm⟩

def retryTrace : List NodeEvent :=
  launchEvents.take 4 ++ [.fetch, .write .try_again, .fetch, .write .success, .dispatch_outgoing]

def retried : Node :=
  (retryTrace.foldlM (guarded (@step Heap.zeros) RetryAlone) (make 1 .MASTER (.empty 0))).get (by decide)

theorem retried_written : retried.written <+: retried.sent :=
  @written_in_order _ Heap.zeros 1 .MASTER (.empty 0) retryTrace (Run.of_foldlM (Option.some_get _).symm)

-- The handshake is put behind a query that was sent after it.
def overtakingTrace : List NodeEvent :=
  launchEvents.take 4 ++ [.fetch, .send ⟨⟨0, .CONFIGURATION_QUERY⟩, none, 0⟩, .write .try_again, .fetch,
    .write .success]

def overtaken : Node :=
  (overtakingTrace.foldlM (guarded (@step Heap.zeros) Always) (make 1 .MASTER (.empty 0))).get (by decide)

theorem overtaken_not_in_order :
    Run (@step Heap.zeros) Always (make 1 .MASTER (.empty 0)) overtakingTrace overtaken ∧
      ¬overtaken.written <+: overtaken.sent :=
  ⟨Run.of_foldlM (Option.some_get _).symm, by decide⟩

end Node

end RoboCrisp.Comms
