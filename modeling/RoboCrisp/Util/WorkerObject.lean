import RoboCrisp.Transition.Run

namespace RoboCrisp.Util

open RoboCrisp.Transition

-- `thread` is the id behind the handle, where the handle is joinable.
structure WorkerThread where
  thread : Option Nat
  should_halt : Bool
deriving DecidableEq

namespace WorkerThread

def ctor : WorkerThread := ⟨none, false⟩

def joinable (worker : WorkerThread) : Bool := worker.thread.isSome

-- The handle belongs to the thread that looks at it, which is `none` when it is none of a pool.
def own (worker : WorkerThread) (this_thread : Option Nat) : Bool :=
  this_thread.isSome && worker.thread == this_thread

end WorkerThread

-- Where a thread of the pool is: at the test of should_halt, in run(), or at its end. What the
-- io_service does with a thread in run() is left open: it calls whatever handlers there are, and
-- comes back at some time or never. In `halting` one of them is in WorkerObject::halt(), behind
-- can_halt().
inductive ThreadStage
  | test
  | run
  | halting
  | exited
deriving DecidableEq

-- `worker` is the place in the array that the thread has been given.
structure Thread where
  worker : Nat
  stage : ThreadStage
deriving DecidableEq

-- The statement that comes next in the thread that calls launch() and halt(). WorkerThread::launch()
-- starts a thread and then stores its handle.
inductive OwnerStage
  | idle
  | launch
  | emplace
  | start_thread
  | store_handle (id : Nat)
  | launched (can_launch : Bool)
  | can_halt
  | reset
  | start_halt_thread
  | start_make_work_thread
  | join_halt_thread
  | join_make_work_thread
  | halted (canhalt : Bool)
deriving DecidableEq

-- The two threads that halt() starts. The places are those in the array.
inductive HaltThread
  | absent
  | tell (i : Nat)
  | wait (i : Nat)
  | clear
  | exited
deriving DecidableEq

inductive MakeWorkThread
  | absent
  | test
  | post
  | exited
deriving DecidableEq

-- A pool with all the threads that it has ever started, at their ids. One thread that is none of
-- them calls launch() and halt().
structure WorkerObject where
  capacity : Nat
  m_worker_threads : List WorkerThread
  m_thread_waiter : Bool
  threads : List Thread
  owner : OwnerStage
  halt_thread : HaltThread
  make_work_thread : MakeWorkThread
deriving DecidableEq

inductive Call
  | launch
  | halt
deriving DecidableEq

-- No call is under way.
def OwnerStage.free : OwnerStage → Bool
  | .idle | .launched _ | .halted _ => true
  | _ => false

def Call.first : Call → OwnerStage
  | .launch => .launch
  | .halt => .can_halt

-- `thread` is the next statement of a thread of the pool, or its run() is back, and `handler_halt` is
-- a call of halt() by a handler on it.
inductive PoolEvent
  | call (call : Call)
  | owner
  | thread (id : Nat)
  | handler_halt (id : Nat)
  | halt_thread
  | make_work_thread

namespace WorkerObject

def start (capacity : Nat) : WorkerObject where
  capacity
  m_worker_threads := []
  m_thread_waiter := false
  threads := []
  owner := .idle
  halt_thread := .absent
  make_work_thread := .absent

def running (s : WorkerObject) (all : Bool) : Bool :=
  if all then s.m_worker_threads.all (·.joinable) else s.m_worker_threads.any (·.joinable)

def can_halt (s : WorkerObject) (this_thread : Option Nat) : Bool :=
  s.m_worker_threads.all fun worker => !(worker.joinable && worker.own this_thread)

def emplace (s : WorkerObject) : WorkerObject :=
  { s with m_worker_threads := s.m_worker_threads ++ [.ctor], owner := .start_thread }

-- thread = std::thread(...), for the element that has just been made
def start_thread (s : WorkerObject) : WorkerObject :=
  { s with
    threads := s.threads ++ [⟨s.m_worker_threads.length - 1, .test⟩]
    owner := .store_handle s.threads.length }

def store_handle (s : WorkerObject) (id : Nat) : WorkerObject :=
  { s with
    m_worker_threads := s.m_worker_threads.modify (s.m_worker_threads.length - 1) fun worker =>
      { worker with thread := id }
    owner := .emplace }

-- A join of the thread would not wait.
def joins (s : WorkerObject) (worker : WorkerThread) : Bool :=
  match worker.thread with
  | none => true
  | some id => (s.threads[id]?.map Thread.stage) == some .exited

-- A statement of launch() or halt(). A loop that has been through makes way for what follows it, and
-- a new element is never joinable.
def owner_step (s : WorkerObject) : Option WorkerObject :=
  match s.owner with
  | .launch =>
      if s.m_worker_threads.length < s.capacity then
        some { s with m_thread_waiter := true, owner := .emplace }
      else some { s with owner := .launched false }
  | .emplace =>
      if s.m_worker_threads.length < s.capacity then some s.emplace
      else some { s with owner := .launched true }
  | .start_thread => do
      let worker ← s.m_worker_threads.getLast?
      if worker.joinable then some { s with owner := .emplace } else some s.start_thread
  | .store_handle id => some (s.store_handle id)
  | .can_halt =>
      if s.can_halt none then some { s with owner := .reset }
      else some { s with owner := .halted false }
  | .reset => some { s with m_thread_waiter := false, owner := .start_halt_thread }
  | .start_halt_thread =>
      some { s with halt_thread := .tell 0, owner := .start_make_work_thread }
  | .start_make_work_thread =>
      some { s with make_work_thread := .test, owner := .join_halt_thread }
  | .join_halt_thread =>
      if s.halt_thread = .exited then
        some { s with halt_thread := .absent, owner := .join_make_work_thread }
      else none
  | .join_make_work_thread =>
      if s.make_work_thread = .exited then
        some { s with make_work_thread := .absent, owner := .halted true }
      else none
  | .idle | .launched _ | .halted _ => none

def call_step (s : WorkerObject) (call : Call) : Option WorkerObject :=
  if s.owner.free then some { s with owner := call.first } else none

def set_stage (s : WorkerObject) (id : Nat) (stage : ThreadStage) : WorkerObject :=
  { s with threads := s.threads.modify id fun thread => { thread with stage } }

-- A statement of a thread of the pool, where run() is one.
def thread_step (s : WorkerObject) (id : Nat) : Option WorkerObject := do
  let thread ← s.threads[id]?
  match thread.stage with
  | .test =>
      let worker ← s.m_worker_threads[thread.worker]?
      return s.set_stage id (if worker.should_halt then .exited else .run)
  | .run => return s.set_stage id .test
  | .halting | .exited => none

-- A handler on the thread calls halt(), which can't halt or goes ahead.
def handler_halt (s : WorkerObject) (id : Nat) : Option WorkerObject := do
  let thread ← s.threads[id]?
  match thread.stage with
  | .run => return if s.can_halt (some id) then s.set_stage id .halting else s
  | .test | .halting | .exited => none

def tell (s : WorkerObject) (i : Nat) : WorkerObject :=
  { s with m_worker_threads := s.m_worker_threads.modify i fun worker =>
      if worker.joinable then { worker with should_halt := true } else worker }

def join (s : WorkerObject) (i : Nat) : WorkerObject :=
  { s with m_worker_threads := s.m_worker_threads.modify i fun worker =>
      if worker.joinable then ⟨none, true⟩ else worker }

-- A statement of the thread that tells the others to exit and waits for them. It is none of the
-- pool, so WorkerThread::halt() goes ahead. The destructors that clear() calls join as well.
def halt_thread_step (s : WorkerObject) : Option WorkerObject :=
  match s.halt_thread with
  | .tell i =>
      if i < s.m_worker_threads.length then some { s.tell i with halt_thread := .tell (i + 1) }
      else some { s with halt_thread := .wait 0 }
  | .wait i =>
      match s.m_worker_threads[i]? with
      | some worker =>
          if s.joins worker then some { s.join i with halt_thread := .wait (i + 1) } else none
      | none => some { s with halt_thread := .clear }
  | .clear =>
      if s.m_worker_threads.all s.joins then
        some { s with m_worker_threads := [], halt_thread := .exited }
      else none
  | .absent | .exited => none

-- What it posts is for the io_service.
def make_work_step (s : WorkerObject) : Option WorkerObject :=
  match s.make_work_thread with
  | .test => some { s with make_work_thread := if s.running false then .post else .exited }
  | .post => some { s with make_work_thread := .test }
  | .absent | .exited => none

def step (s : WorkerObject) : PoolEvent → Option WorkerObject
  | .call call => s.call_step call
  | .owner => s.owner_step
  | .thread id => s.thread_step id
  | .handler_halt id => s.handler_halt id
  | .halt_thread => s.halt_thread_step
  | .make_work_thread => s.make_work_step

end WorkerObject

end RoboCrisp.Util
