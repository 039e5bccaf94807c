import RoboCrisp.Comms.Node
import RoboCrisp.Transition.Run
import RoboCrisp.Util.SharedQueue.Waiting

namespace RoboCrisp.Comms

open RoboCrisp.Util RoboCrisp.Transition

-- What a handler of the io_service does to the halting of the node: it calls halt(), or posts
-- another handler, any number of times. All else that it does is left out.
inductive Handler
  | done
  | halt (next : Handler)
  | post (posted next : Handler)
deriving DecidableEq

namespace Handler

-- std::bind(&BasicNode::halt, this, false)
def bound_halt : Handler := .halt .done

-- The handler, or one that it posts, calls halt().
def halts : Handler → Bool
  | .done => false
  | .halt _ => true
  | .post posted next => posted.halts || next.halts

end Handler

-- The statement of halt() that comes next. `poll` runs a handler on the same thread, which is
-- `done` between two of them. A halt() that is called in there gets no further than the
-- mutex: `relock` is where it wants to lock it.
inductive HaltStage
  | test_and_set
  | lock
  | stop
  | can_halt
  | unstop
  | clear
  | poll (handler : Handler)
  | relock
  | num_waiters
  | wake_all
  | close
  | join
  | returned (result : Bool)
deriving DecidableEq

-- The statement of send_loop() that comes next. `encode` begins with the second look at
-- m_stopped, and `leave` is the look at it behind the loop.
inductive SendStage (α : Type)
  | test
  | next (call : NextCall α)
  | encode (message : α)
  | write (message : α)
  | dispatch
  | leave
  | exited
deriving DecidableEq

-- The thread is in m_cv.wait.
def SendStage.waits {α : Type} : SendStage α → Bool
  | .next .waiting => true
  | _ => false

-- The statement of receive_loop() that comes next, in the same way.
inductive ReceiveStage
  | test
  | read_header
  | test_header
  | read_body
  | test_body
  | dispatch
  | resync
  | leave
  | exited
deriving DecidableEq

-- What the threads of a node share while one of them calls halt(). `on_worker` says whether
-- that one is a worker, and m_halt_mutex whether it holds the mutex.
structure Halting (α : Type) where
  on_worker : Bool
  force_try : Bool
  m_halting : Bool
  m_stopped : Bool
  m_halt_mutex : Bool
  socket_open : Bool
  m_outgoing_queue : WaitedQueue α
  io_service : List Handler
  send_loop : SendStage α
  receive_loop : ReceiveStage
  stage : HaltStage

-- Whose step comes next, and how its reads and writes end. The handlers are those that an
-- incoming message is dispatched to.
inductive HaltingEvent (α : Type)
  | halt
  | send_loop (encoded : Bool) (outcome : WriteOutcome)
  | receive_loop (ok : Bool) (handlers : List Handler)
  | send (m : α)

namespace Halting

variable {α : Type}

-- A node with both loops running, and a call of halt() that is about to begin.
def launched (on_worker force_try : Bool) (items : List α) (io_service : List Handler) : Halting α where
  on_worker
  force_try
  m_halting := false
  m_stopped := false
  m_halt_mutex := false
  socket_open := true
  m_outgoing_queue := ⟨⟨items, false⟩, 0⟩
  io_service
  send_loop := .test
  receive_loop := .test
  stage := .test_and_set

-- The calls of halt() by handlers are calls of halt(false) on a worker thread.
def halt_step (s : Halting α) : Option (Halting α) :=
  match s.stage with
  | .test_and_set =>
      if s.m_halting then some { s with stage := .returned false }
      else some { s with m_halting := true, stage := .lock }
  | .lock => if s.m_halt_mutex then none else some { s with m_halt_mutex := true, stage := .stop }
  | .stop => some { s with m_stopped := true, stage := .can_halt }
  | .can_halt =>
      if s.on_worker ∧ ¬s.force_try then some { s with stage := .unstop }
      else some { s with stage := .num_waiters }
  | .unstop => some { s with m_stopped := false, stage := .clear }
  | .clear => some { s with m_halting := false, stage := .poll .done }
  | .poll .done =>
      match s.io_service with
      | [] => some { s with m_halt_mutex := false, stage := .returned false }
      | handler :: rest => some { s with io_service := rest, stage := .poll handler }
  | .poll (.halt next) =>
      if s.m_halting then some { s with stage := .poll next }
      else some { s with m_halting := true, stage := .relock }
  | .poll (.post posted next) =>
      some { s with io_service := s.io_service ++ [posted], stage := .poll next }
  -- the thread that would have to unlock it is this one
  | .relock => none
  | .num_waiters =>
      if s.m_outgoing_queue.m_num_waiters > 0 then some { s with stage := .wake_all }
      else some { s with stage := .close }
  | .wake_all => some { s with m_outgoing_queue := s.m_outgoing_queue.wake_all, stage := .close }
  -- with the signal and the scheduled actions
  | .close => some { s with socket_open := false, stage := .join }
  -- WorkerObject::halt() waits for the worker that send_loop() blocks, unless it is a worker
  -- that calls it
  | .join =>
      if s.send_loop.waits ∧ ¬s.on_worker then none
      else some { s with m_halt_mutex := false, stage := .returned true }
  | .returned _ => none

-- The call is over as far as the loop is concerned.
def SendStage.of_call : NextCall α → SendStage α
  | .returned none => .leave
  | .returned (some message) => .encode message
  | call => .next call

-- if ( ! m_stopped ) m_io_service.post(...)
def leave (s : Halting α) : Halting α :=
  if s.m_stopped then s else { s with io_service := s.io_service ++ [.bound_halt] }

def send_step (s : Halting α) (encoded : Bool) (outcome : WriteOutcome) : Option (Halting α) :=
  match s.send_loop with
  | .test => some { s with send_loop := if s.m_stopped then .leave else .next .entered }
  | .next call => do
      let (m_outgoing_queue, call) ← s.m_outgoing_queue.next_step call
      return { s with m_outgoing_queue, send_loop := SendStage.of_call call }
  | .encode message =>
      if s.m_stopped then some { s with send_loop := .leave }
      else if encoded then some { s with send_loop := .write message }
      else some { s with send_loop := .test }
  | .write message =>
      match outcome with
      | .success => if s.socket_open then some { s with send_loop := .dispatch } else none
      | .try_again =>
          some { s with m_outgoing_queue := s.m_outgoing_queue.emplace message, send_loop := .test }
      | .error => some { s with send_loop := .leave }
  | .dispatch => some { s with send_loop := .test }
  | .leave => some { s.leave with send_loop := .exited }
  | .exited => none

-- A message without a body has nothing to read in `read_body`. In `test_body`, `ok` is what
-- the checksum says.
def receive_step (s : Halting α) (ok : Bool) (handlers : List Handler) : Option (Halting α) :=
  match s.receive_loop with
  | .test => some { s with receive_loop := if s.m_stopped then .leave else .read_header }
  | .read_header => some { s with receive_loop := if ok then .test_header else .leave }
  | .test_header => some { s with receive_loop := if s.m_stopped then .leave else .read_body }
  | .read_body => some { s with receive_loop := if ok then .test_body else .leave }
  | .test_body =>
      if s.m_stopped then some { s with receive_loop := .leave }
      else some { s with receive_loop := if ok then .dispatch else .resync }
  | .dispatch => some { s with io_service := s.io_service ++ handlers, receive_loop := .test }
  | .resync => some { s with receive_loop := if ok then .test else .leave }
  | .leave => some { s.leave with receive_loop := .exited }
  | .exited => none

def step (s : Halting α) : HaltingEvent α → Option (Halting α)
  | .halt => s.halt_step
  | .send_loop encoded outcome => s.send_step encoded outcome
  | .receive_loop ok handlers => s.receive_step ok handlers
  | .send m => some { s with m_outgoing_queue := s.m_outgoing_queue.push m }

end Halting

end RoboCrisp.Comms
