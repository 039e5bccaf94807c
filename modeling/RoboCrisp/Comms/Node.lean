import RoboCrisp.Comms.BasicNode
import RoboCrisp.Util.Scheduler
import RoboCrisp.Util.SharedQueue

namespace RoboCrisp.Comms

open RoboCrisp.Stream RoboCrisp.Util

inductive MessageDirection
  | INCOMING
  | OUTGOING

-- The functions that a node gives to its scheduler: send(MessageType::SYNC) and halt().
inductive NodeAction
  | send_sync
  | halt
deriving DecidableEq

-- What a node has posted to its io_service. Handlers that only print are left out.
inductive Job
  | handshake_received (hs : Handshake)
  | handshake_response_received (hs : HandshakeResponse)
  | configuration_query_received
  | timer_expiry_handler (id : Nat)
  | remove_scheduled (id : Nat)
  | remove_periodic (id : Nat)
  | halt
deriving DecidableEq

-- How far the call of launch() has got. `timer_set` comes before its result is stored.
inductive LaunchStage
  | uncalled
  | sent_handshake
  | launched_workers
  | spawned_receive_loop
  | spawned_send_loop
  | timer_set (id : Nat)
  | returned
deriving DecidableEq

-- `written` comes before the dispatch of the message that has been written.
inductive SendLoop
  | unspawned
  | waiting
  | writing (message : Message)
  | written (message : Message)
  | exited
deriving DecidableEq

inductive ReceiveLoop
  | unspawned
  | reading
  | received (m : Message)
  | exited
deriving DecidableEq

-- BasicNode. `version` is the PROTOCOL_VERSION that the program was built with. The last four
-- fields record what has happened: the messages given to send(), those that the socket took
-- as a whole, those that were dispatched as incoming, and the jobs that have been run.
structure Node where
  role : NodeRole
  version : UInt32
  configuration : Configuration
  m_outgoing_queue : SharedQueue Message
  scheduler : Scheduler NodeAction
  m_sync_action : Option Nat
  m_halt_action : Option Nat
  m_halting : Bool
  m_stopped : Bool
  socket_open : Bool
  workers : Bool
  launching : LaunchStage
  send_loop : SendLoop
  receive_loop : ReceiveLoop
  io_service : List Job
  sent : List Message
  written : List Message
  dispatched : List Message
  handled : List Job

-- What happens next. `on_worker` says whether the thread is one of the node's own workers.
inductive WriteOutcome
  | success
  | try_again
  | error
deriving DecidableEq

inductive NodeEvent
  | launch
  | incoming (m : Message)
  | incoming_failed
  | dispatch_incoming
  | fetch
  | write (outcome : WriteOutcome)
  | dispatch_outgoing
  | execute (i : Nat) (on_worker : Bool)
  | tick (id : Nat)
  | expire (id : Nat)
  | send (m : Message)
  | halt (on_worker force_try : Bool)

namespace Node

-- BasicNode(typename _Protocol::socket&& _socket, NodeRole _role), with the configuration that
-- the program then stores in it.
def make (version : UInt32) (_role : NodeRole) (configuration : Configuration) : Node where
  role := _role
  version
  configuration
  m_outgoing_queue := .empty
  scheduler := .empty
  m_sync_action := none
  m_halt_action := none
  m_halting := false
  m_stopped := false
  socket_open := true
  workers := false
  launching := .uncalled
  send_loop := .unspawned
  receive_loop := .unspawned
  io_service := []
  sent := []
  written := []
  dispatched := []
  handled := []

def send (n : Node) (m : Message) : Node :=
  { n with m_outgoing_queue := n.m_outgoing_queue.push m, sent := n.sent ++ [m] }

def post (n : Node) (job : Job) : Node := { n with io_service := n.io_service ++ [job] }

-- PeriodicAction::cancel
def cancel_periodic (n : Node) (id : Nat) : Node :=
  { n with scheduler := n.scheduler.deactivate id }.post (.remove_periodic id)

-- ScheduledAction::cancel
def cancel_scheduled (n : Node) (id : Nat) : Node :=
  { n with scheduler := n.scheduler.abort_wait id }.post (.remove_scheduled id)

-- if ( ! m_sync_action.expired() ) m_sync_action.lock()->cancel(); m_sync_action.reset();
def cancel_sync_action (n : Node) : Node :=
  match n.m_sync_action.bind n.scheduler.find_periodic with
  | some action => { n.cancel_periodic action.id with m_sync_action := none }
  | none => { n with m_sync_action := none }

-- if ( ! m_halt_action.expired() ) m_halt_action.lock()->cancel(); m_halt_action.reset();
def cancel_halt_action (n : Node) : Node :=
  match n.m_halt_action.bind n.scheduler.find_scheduled with
  | some action => { n.cancel_scheduled action.id with m_halt_action := none }
  | none => { n with m_halt_action := none }

-- if ( m_outgoing_queue.num_waiters() > 0 ) m_outgoing_queue.wake_all();
def wake_waiters (n : Node) : Node :=
  if n.send_loop = .waiting ∧ n.m_outgoing_queue.items = [] then
    { n with m_outgoing_queue := n.m_outgoing_queue.wake_all }
  else n

-- A call that fails on a worker thread puts the flags back. The handlers that its poll() runs
-- are steps of their own.
def halt (n : Node) (on_worker force_try : Bool) : Node × Bool :=
  if n.m_halting then (n, false)
  else if on_worker ∧ ¬force_try then (n, false)
  else
    let n := { n.wake_waiters with m_halting := true, m_stopped := true, socket_open := false }
    let n := n.cancel_sync_action.cancel_halt_action
    -- WorkerObject::halt()
    ({ n with workers := n.workers && on_worker }, true)

-- The default callbacks.
section Callbacks

def acknowledge (n : Node) (hs : Handshake) : HandshakeAcknowledge :=
  if hs.protocol ≠ PROTOCOL_NAME then .NACK_UNKNOWN_PROTOCOL
  else if hs.role = n.role then .NACK_ROLE_CONFLICT
  else if hs.version ≠ n.version then .NACK_VERSION_CONFLICT
  else .ACK

def response (n : Node) (hs : Handshake) : HandshakeResponse where
  acknowledge := n.acknowledge hs
  role := if hs.role = .MASTER then .SLAVE else .MASTER

def handshake_received (n : Node) (hs : Handshake) : Option Node := do
  let m ← Message.ofBody (.handshake_response (n.response hs))
  return n.send m

-- 1_Hz
def sync_interval : Nat := 1000000000

def handshake_response_received (n : Node) (hs : HandshakeResponse) (on_worker : Bool) : Node :=
  if hs.acknowledge = .ACK then
    let n := n.cancel_halt_action
    let (scheduler, action) := n.scheduler.schedule sync_interval .send_sync
    { n with scheduler, m_sync_action := some action }
  else (n.halt on_worker false).1

def configuration_query_received (n : Node) : Option Node := do
  let configuration ← n.configuration.copy
  let m ← Message.ofBody (.configuration configuration)
  return n.send m

end Callbacks

def perform (n : Node) (on_worker : Bool) : NodeAction → Option Node
  | .send_sync => do
      let m ← Message.ofType .SYNC
      return n.send m
  | .halt => some (n.halt on_worker false).1

-- The object behind `this` has to be there. Nobody starts its timer again, so that it asks
-- for its own removal.
def timer_expiry_handler (n : Node) (id : Nat) (on_worker : Bool) : Option Node := do
  let action ← n.scheduler.find_scheduled id
  let n := { n with scheduler := n.scheduler.finish id }
  let n ← n.perform on_worker action.m_function
  return n.cancel_scheduled id

def run_job (n : Node) (on_worker : Bool) : Job → Option Node
  | .handshake_received hs => n.handshake_received hs
  | .handshake_response_received hs => some (n.handshake_response_received hs on_worker)
  | .configuration_query_received => n.configuration_query_received
  | .timer_expiry_handler id => n.timer_expiry_handler id on_worker
  | .remove_scheduled id => some { n with scheduler := n.scheduler.remove_scheduled id }
  | .remove_periodic id => some { n with scheduler := n.scheduler.remove_periodic id }
  | .halt => some (n.halt on_worker false).1

-- The signals post the handlers for incoming messages. Those for outgoing ones only print.
def call_handler (n : Node) (direction : MessageDirection) (received : Job) : Node :=
  match direction with
  | .INCOMING => n.post received
  | .OUTGOING => n

-- MessageDispatcher::dispatch, which throws on the types that it has no handlers for.
def dispatch [Heap] (n : Node) (message : Message) (direction : MessageDirection) : Option Node :=
  let type := message.header.type
  if type = .HANDSHAKE then do
    let body ← message.as Handshake.decode_copy
    return n.call_handler direction (.handshake_received body)
  else if type = .HANDSHAKE_RESPONSE then do
    let body ← message.as HandshakeResponse.decode_copy
    return n.call_handler direction (.handshake_response_received body)
  else if type = .CONFIGURATION_QUERY then
    some (n.call_handler direction .configuration_query_received)
  else if type = .CONFIGURATION_RESPONSE then do
    let _ ← message.as Configuration.decode_copy
    return n
  else if type = .MODULE_CONTROL then do
    let _ ← message.as (ModuleControl.decode_copy n.configuration)
    return n
  else if MessageDispatcher.throws type then none
  else some n

-- What the two loops do on their way out.
def leave_loop (n : Node) : Node := if n.m_stopped then n else n.post .halt

-- The next step of launch(), which gives up at once when the node runs or has been stopped.
def launch (n : Node) : Option Node :=
  match n.launching with
  | .uncalled =>
      if n.workers ∨ n.m_stopped then some { n with launching := .returned }
      else do
        let m ← Message.ofBody (.handshake (.make n.version n.role))
        return { n.send m with launching := .sent_handshake }
  | .sent_handshake => some { n with workers := true, launching := .launched_workers }
  | .launched_workers => some { n with receive_loop := .reading, launching := .spawned_receive_loop }
  | .spawned_receive_loop => some { n with send_loop := .waiting, launching := .spawned_send_loop }
  | .spawned_send_loop =>
      let (scheduler, action) := n.scheduler.set_timer .halt
      some { n with scheduler, launching := .timer_set action }
  | .timer_set action => some { n with m_halt_action := some action, launching := .returned }
  | .returned => none

-- A whole message has come in, with a correct checksum if it has one.
def incoming (n : Node) (m : Message) : Option Node :=
  if n.receive_loop = .reading then
    if n.m_stopped then some { n with receive_loop := .exited }
    else some { n with receive_loop := .received m }
  else none

-- An error on the socket, or m_stopped is seen.
def incoming_failed (n : Node) : Option Node :=
  if n.receive_loop = .reading then some { n with receive_loop := .exited }.leave_loop else none

def dispatch_incoming [Heap] (n : Node) : Option Node :=
  match n.receive_loop with
  | .received m =>
      { n with receive_loop := .reading, dispatched := n.dispatched ++ [m] }.dispatch m .INCOMING
  | _ => none

-- The head of the loop up to the write. A message that cannot be encoded is dropped.
def fetch (n : Node) : Option Node :=
  if n.send_loop = .waiting then
    if n.m_stopped then some { n with send_loop := .exited }
    else do
      let (message, m_outgoing_queue) ← n.m_outgoing_queue.next
      let n := { n with m_outgoing_queue }
      match message with
      | none => return { n with send_loop := .exited }.leave_loop
      | some message => do
          let size ← message.get_encoded_size
          let (er, _) ← message.encode (MemoryEncodeBuffer.alloc size)
          if er ≠ .SUCCESS then return n
          else return { n with send_loop := .writing message }
  else none

-- How the write ends. A closed socket takes nothing.
def write (n : Node) (outcome : WriteOutcome) : Option Node :=
  match n.send_loop with
  | .writing message =>
      match outcome with
      | .success =>
          if n.socket_open then
            some { n with send_loop := .written message, written := n.written ++ [message] }
          else none
      | .try_again =>
          some { n with send_loop := .waiting, m_outgoing_queue := n.m_outgoing_queue.emplace message }
      | .error => some { n with send_loop := .exited }.leave_loop
  | _ => none

def dispatch_outgoing [Heap] (n : Node) : Option Node :=
  match n.send_loop with
  | .written message => { n with send_loop := .waiting }.dispatch message .OUTGOING
  | _ => none

-- One of the posted handlers is run, not always the first.
def execute (n : Node) (i : Nat) (on_worker : Bool) : Option Node := do
  let job ← n.io_service[i]?
  let n := { n with io_service := n.io_service.eraseIdx i, handled := n.handled ++ [job] }
  if on_worker ∧ ¬n.workers then none else n.run_job on_worker job

-- PeriodicAction::timer_expiry_handler
def tick (n : Node) (id : Nat) : Option Node := do
  let action ← n.scheduler.find_periodic id
  if action.active then n.perform true action.function else return n

-- The timer of a scheduled action has run out, and its handler is posted.
def expire (n : Node) (id : Nat) : Option Node := do
  let action ← n.scheduler.find_scheduled id
  if action.m_timer = .pending then
    return { n with scheduler := n.scheduler.expire id }.post (.timer_expiry_handler id)
  else none

def step [Heap] (n : Node) : NodeEvent → Option Node
  | .launch => n.launch
  | .incoming m => n.incoming m
  | .incoming_failed => n.incoming_failed
  | .dispatch_incoming => n.dispatch_incoming
  | .fetch => n.fetch
  | .write outcome => n.write outcome
  | .dispatch_outgoing => n.dispatch_outgoing
  | .execute i on_worker => n.execute i on_worker
  | .tick id => n.tick id
  | .expire id => n.expire id
  | .send m => some (n.send m)
  | .halt on_worker force_try =>
      if on_worker ∧ ¬n.workers then none else some (n.halt on_worker force_try).1

end Node

end RoboCrisp.Comms
