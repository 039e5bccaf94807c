import RoboCrisp.Comms.Node.Halting.Reentry
import RoboCrisp.Comms.Node.Lemmas

namespace RoboCrisp.Comms

open RoboCrisp.Util RoboCrisp.Transition

namespace Node

variable {n : Node}

-- What a handler of the node does to its halting.
def handler (n : Node) : Job → Handler
  | .halt => .bound_halt
  | .handshake_response_received hs => if hs.acknowledge = .ACK then .post .done .done else .bound_halt
  | .timer_expiry_handler id =>
      match (n.scheduler.find_scheduled id).map ScheduledAction.m_function with
      | some .halt => .halt (.post .done .done)
      | _ => .post .done .done
  | _ => .done

-- A loop that waits for a message that there is has not come to the wait.
def send_stage (n : Node) : SendStage Message :=
  match n.send_loop with
  | .unspawned => .exited
  | .waiting => if n.m_outgoing_queue.items = [] then .next .waiting else .test
  | .writing message => .write message
  | .written _ => .dispatch
  | .exited => .exited

def receive_stage (n : Node) : ReceiveStage :=
  match n.receive_loop with
  | .unspawned => .exited
  | .reading => .read_header
  | .received _ => .dispatch
  | .exited => .exited

-- The node when a thread is about to call halt().
def halting (n : Node) (on_worker force_try : Bool) : Halting Message where
  on_worker
  force_try
  m_halting := n.m_halting
  m_stopped := n.m_stopped
  m_halt_mutex := false
  socket_open := n.socket_open
  m_outgoing_queue := ⟨n.m_outgoing_queue, if n.send_stage.waits then 1 else 0⟩
  io_service := n.io_service.map n.handler
  send_loop := n.send_stage
  receive_loop := n.receive_stage
  stage := .test_and_set

theorem send_stage_waits_iff :
    n.send_stage.waits = true ↔ n.send_loop = .waiting ∧ n.m_outgoing_queue.items = [] := by
  rw [send_stage]
  cases n.send_loop with
  | waiting => by_cases hitems : n.m_outgoing_queue.items = [] <;> simp [hitems, SendStage.waits]
  | _ => simp [SendStage.waits]

-- The cells that a call of halt() shares with the loops.
structure SameCells (n n' : Node) : Prop where
  m_halting : n'.m_halting = n.m_halting
  m_stopped : n'.m_stopped = n.m_stopped
  socket_open : n'.socket_open = n.socket_open
  m_outgoing_queue : n'.m_outgoing_queue = n.m_outgoing_queue

theorem cancel_sync_action_same (n : Node) : n.SameCells n.cancel_sync_action := by
  rw [cancel_sync_action]
  split <;> exact ⟨rfl, rfl, rfl, rfl⟩

theorem cancel_halt_action_same (n : Node) : n.SameCells n.cancel_halt_action := by
  rw [cancel_halt_action]
  split <;> exact ⟨rfl, rfl, rfl, rfl⟩

-- What is left of the call once it has come past the waiters.
theorem halt_cells (hhalting : n.m_halting = false) {on_worker force_try : Bool}
    (hcan : ¬(on_worker = true ∧ force_try = false)) :
    (n.halt on_worker force_try).2 = true ∧
      SameCells { n.wake_waiters with m_halting := true, m_stopped := true, socket_open := false }
        (n.halt on_worker force_try).1 := by
  rw [halt, if_neg (by simp [hhalting]), if_neg (by simpa using hcan)]
  refine ⟨rfl, ?_⟩
  have hsync := cancel_sync_action_same
    { n.wake_waiters with m_halting := true, m_stopped := true, socket_open := false }
  have hhalt := cancel_halt_action_same (cancel_sync_action
    { n.wake_waiters with m_halting := true, m_stopped := true, socket_open := false })
  exact ⟨hhalt.m_halting.trans hsync.m_halting, hhalt.m_stopped.trans hsync.m_stopped,
    hhalt.socket_open.trans hsync.socket_open, hhalt.m_outgoing_queue.trans hsync.m_outgoing_queue⟩

end Node

namespace Halting

variable {α : Type} {s : Halting α}

-- The statements of a call that goes on, up to the point where it waits for the workers.
theorem run_join (hstage : s.stage = .test_and_set) (hhalting : s.m_halting = false)
    (hfree : s.m_halt_mutex = false) (hcan : ¬(s.on_worker = true ∧ s.force_try = false)) :
    ∃ trace, Run step OnlyHalt s trace { s with
      m_halting := true
      m_stopped := true
      m_halt_mutex := true
      socket_open := false
      m_outgoing_queue :=
        if 0 < s.m_outgoing_queue.m_num_waiters then s.m_outgoing_queue.wake_all else s.m_outgoing_queue
      stage := .join } := by
  obtain ⟨on_worker, force_try, m_halting, m_stopped, m_halt_mutex, _, queue, _, _, _, stage⟩ := s
  obtain rfl : stage = .test_and_set := hstage
  obtain rfl : m_halting = false := hhalting
  obtain rfl : m_halt_mutex = false := hfree
  have hgoes : ∀ {β : Type} (fails goes : β), (if on_worker = true ∧ ¬force_try = true then fails else goes) = goes :=
    fun fails goes => if_neg (by simpa using hcan)
  by_cases hwaiters : 0 < queue.m_num_waiters
  · simp only [hwaiters, if_true]
    exact ⟨_, run_halt rfl (run_halt rfl (run_halt rfl (run_halt (hgoes _ _) (run_halt (if_pos hwaiters)
      (run_halt rfl (run_halt rfl .start))))))⟩
  · simp only [hwaiters, if_false]
    exact ⟨_, run_halt rfl (run_halt rfl (run_halt rfl (run_halt (hgoes _ _) (run_halt (if_neg hwaiters)
      (run_halt rfl .start)))))⟩

end Halting

namespace Node

variable {n : Node}

-- With no other step in between, they leave the cells as the call does that is taken as one
-- step.
theorem halting_joins (hhalting : n.m_halting = false) {on_worker force_try : Bool}
    (hcan : ¬(on_worker = true ∧ force_try = false)) :
    ∃ trace t, Run Halting.step Halting.OnlyHalt (n.halting on_worker force_try) trace t ∧
      t.stage = .join ∧ (n.halt on_worker force_try).2 = true ∧
      t.m_halting = (n.halt on_worker force_try).1.m_halting ∧
      t.m_stopped = (n.halt on_worker force_try).1.m_stopped ∧
      t.socket_open = (n.halt on_worker force_try).1.socket_open ∧
      t.m_outgoing_queue.toSharedQueue = (n.halt on_worker force_try).1.m_outgoing_queue := by
  obtain ⟨hresult, hcells⟩ := halt_cells hhalting hcan
  obtain ⟨trace, hrun⟩ := Halting.run_join (s := n.halting on_worker force_try) rfl hhalting rfl hcan
  refine ⟨trace, _, hrun, rfl, hresult, hcells.m_halting.symm, hcells.m_stopped.symm,
    hcells.socket_open.symm, ?_⟩
  rw [hcells.m_outgoing_queue]
  have hcount : 0 < (n.halting on_worker force_try).m_outgoing_queue.m_num_waiters ↔
      n.send_loop = .waiting ∧ n.m_outgoing_queue.items = [] := by
    rw [← send_stage_waits_iff]
    show 0 < (if n.send_stage.waits = true then 1 else 0) ↔ _
    split <;> simp_all
  rw [wake_waiters]
  by_cases hwaits : n.send_loop = .waiting ∧ n.m_outgoing_queue.items = []
  · rw [if_pos hwaits, if_pos (hcount.mpr hwaits)]
    rfl
  · rw [if_neg hwaits, if_neg (hwaits ∘ hcount.mp)]
    rfl

end Node

end RoboCrisp.Comms
