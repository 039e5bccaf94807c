import RoboCrisp.Util.WorkerObject

namespace RoboCrisp.Util

open RoboCrisp.Transition

namespace WorkerObject

variable {s t : WorkerObject} {e : PoolEvent}

-- All that a step can do.
inductive Steps (s : WorkerObject) : PoolEvent → WorkerObject → Prop
  | call {call : Call} (hfree : s.owner.free = true) :
      Steps s (.call call) { s with owner := call.first }
  | launch (howner : s.owner = .launch) (hroom : s.m_worker_threads.length < s.capacity) :
      Steps s .owner { s with m_thread_waiter := true, owner := .emplace }
  | full (howner : s.owner = .launch) (hfull : s.capacity ≤ s.m_worker_threads.length) :
      Steps s .owner { s with owner := .launched false }
  | emplace (howner : s.owner = .emplace) (hroom : s.m_worker_threads.length < s.capacity) :
      Steps s .owner s.emplace
  | launched (howner : s.owner = .emplace) (hfull : s.capacity ≤ s.m_worker_threads.length) :
      Steps s .owner { s with owner := .launched true }
  | started {worker : WorkerThread} (howner : s.owner = .start_thread)
      (hworker : s.m_worker_threads.getLast? = some worker) (hjoinable : worker.joinable = true) :
      Steps s .owner { s with owner := .emplace }
  | start_thread {worker : WorkerThread} (howner : s.owner = .start_thread)
      (hworker : s.m_worker_threads.getLast? = some worker) (hjoinable : worker.joinable = false) :
      Steps s .owner s.start_thread
  | store_handle {id : Nat} (howner : s.owner = .store_handle id) : Steps s .owner (s.store_handle id)
  | can_halt (howner : s.owner = .can_halt) : Steps s .owner { s with owner := .reset }
  | reset (howner : s.owner = .reset) :
      Steps s .owner { s with m_thread_waiter := false, owner := .start_halt_thread }
  | start_halt_thread (howner : s.owner = .start_halt_thread) :
      Steps s .owner { s with halt_thread := .tell 0, owner := .start_make_work_thread }
  | start_make_work_thread (howner : s.owner = .start_make_work_thread) :
      Steps s .owner { s with make_work_thread := .test, owner := .join_halt_thread }
  | join_halt_thread (howner : s.owner = .join_halt_thread) (hexited : s.halt_thread = .exited) :
      Steps s .owner { s with halt_thread := .absent, owner := .join_make_work_thread }
  | join_make_work_thread (howner : s.owner = .join_make_work_thread)
      (hexited : s.make_work_thread = .exited) :
      Steps s .owner { s with make_work_thread := .absent, owner := .halted true }
  | test {id i : Nat} {worker : WorkerThread} (hthread : s.threads[id]? = some ⟨i, .test⟩)
      (hworker : s.m_worker_threads[i]? = some worker) :
      Steps s (.thread id) (s.set_stage id (if worker.should_halt then .exited else .run))
  | back {id i : Nat} (hthread : s.threads[id]? = some ⟨i, .run⟩) :
      Steps s (.thread id) (s.set_stage id .test)
  | halts {id i : Nat} (hthread : s.threads[id]? = some ⟨i, .run⟩) (hcan : s.can_halt (some id) = true) :
      Steps s (.handler_halt id) (s.set_stage id .halting)
  | refuses {id i : Nat} (hthread : s.threads[id]? = some ⟨i, .run⟩) (hcan : s.can_halt (some id) = false) :
      Steps s (.handler_halt id) s
  | tell {i : Nat} (hhalt : s.halt_thread = .tell i) (hi : i < s.m_worker_threads.length) :
      Steps s .halt_thread { s.tell i with halt_thread := .tell (i + 1) }
  | told {i : Nat} (hhalt : s.halt_thread = .tell i) (hi : s.m_worker_threads.length ≤ i) :
      Steps s .halt_thread { s with halt_thread := .wait 0 }
  | join {i : Nat} {worker : WorkerThread} (hhalt : s.halt_thread = .wait i)
      (hworker : s.m_worker_threads[i]? = some worker) (hjoins : s.joins worker = true) :
      Steps s .halt_thread { s.join i with halt_thread := .wait (i + 1) }
  | joined {i : Nat} (hhalt : s.halt_thread = .wait i) (hi : s.m_worker_threads.length ≤ i) :
      Steps s .halt_thread { s with halt_thread := .clear }
  | clear (hhalt : s.halt_thread = .clear) (hjoins : s.m_worker_threads.all s.joins = true) :
      Steps s .halt_thread { s with m_worker_threads := [], halt_thread := .exited }
  | make_work_test (hmake : s.make_work_thread = .test) :
      Steps s .make_work_thread
        { s with make_work_thread := if s.running false then .post else .exited }
  | make_work (hmake : s.make_work_thread = .post) :
      Steps s .make_work_thread { s with make_work_thread := .test }

-- A thread that is none of the pool always can.
theorem can_halt_none (s : WorkerObject) : s.can_halt none = true := by
  simp [can_halt, WorkerThread.own]

theorem call_steps {call : Call} (h : s.call_step call = some t) : s.Steps (.call call) t := by
  obtain ⟨hfree, h⟩ := Option.ite_none_right_eq_some.mp h
  obtain rfl := Option.some.inj h
  exact .call hfree

theorem owner_steps (h : s.owner_step = some t) : s.Steps .owner t := by
  rw [owner_step] at h
  split at h
  · rename_i howner
    split at h
    · obtain rfl := Option.some.inj h
      exact .launch howner ‹_›
    · obtain rfl := Option.some.inj h
      exact .full howner (by omega)
  · rename_i howner
    split at h
    · obtain rfl := Option.some.inj h
      exact .emplace howner ‹_›
    · obtain rfl := Option.some.inj h
      exact .launched howner (by omega)
  · rename_i howner
    obtain ⟨worker, hworker, h⟩ := Option.bind_eq_some_iff.mp h
    split at h
    · rename_i hjoinable
      obtain rfl := Option.some.inj h
      exact .started howner hworker hjoinable
    · rename_i hjoinable
      obtain rfl := Option.some.inj h
      exact .start_thread howner hworker (Bool.eq_false_iff.mpr hjoinable)
  · rename_i howner
    obtain rfl := Option.some.inj h
    exact .store_handle howner
  · rename_i howner
    rw [if_pos s.can_halt_none] at h
    obtain rfl := Option.some.inj h
    exact .can_halt howner
  · rename_i howner
    obtain rfl := Option.some.inj h
    exact .reset howner
  · rename_i howner
    obtain rfl := Option.some.inj h
    exact .start_halt_thread howner
  · rename_i howner
    obtain rfl := Option.some.inj h
    exact .start_make_work_thread howner
  · rename_i howner
    obtain ⟨hexited, h⟩ := Option.ite_none_right_eq_some.mp h
    obtain rfl := Option.some.inj h
    exact .join_halt_thread howner hexited
  · rename_i howner
    obtain ⟨hexited, h⟩ := Option.ite_none_right_eq_some.mp h
    obtain rfl := Option.some.inj h
    exact .join_make_work_thread howner hexited
  · exact absurd h (by simp)
  · exact absurd h (by simp)
  · exact absurd h (by simp)

theorem thread_steps {id : Nat} (h : s.thread_step id = some t) : s.Steps (.thread id) t := by
  obtain ⟨⟨i, stage⟩, hthread, h⟩ := Option.bind_eq_some_iff.mp h
  cases stage with
  | test =>
      obtain ⟨worker, hworker, h⟩ := Option.bind_eq_some_iff.mp h
      obtain rfl := Option.some.inj h
      exact .test hthread hworker
  | run =>
      obtain rfl := Option.some.inj h
      exact .back hthread
  | halting => exact absurd h (by simp)
  | exited => exact absurd h (by simp)

theorem handler_halt_steps {id : Nat} (h : s.handler_halt id = some t) : s.Steps (.handler_halt id) t := by
  obtain ⟨⟨i, stage⟩, hthread, h⟩ := Option.bind_eq_some_iff.mp h
  cases stage with
  | run =>
      obtain rfl := Option.some.inj h
      split
      · exact .halts hthread ‹_›
      · exact .refuses hthread (Bool.eq_false_iff.mpr ‹_›)
  | test => exact absurd h (by simp)
  | halting => exact absurd h (by simp)
  | exited => exact absurd h (by simp)

theorem halt_thread_steps (h : s.halt_thread_step = some t) : s.Steps .halt_thread t := by
  rw [halt_thread_step] at h
  split at h
  · rename_i hhalt
    split at h
    · obtain rfl := Option.some.inj h
      exact .tell hhalt ‹_›
    · obtain rfl := Option.some.inj h
      exact .told hhalt (by omega)
  · rename_i hhalt
    split at h
    · rename_i hworker
      obtain ⟨hjoins, h⟩ := Option.ite_none_right_eq_some.mp h
      obtain rfl := Option.some.inj h
      exact .join hhalt hworker hjoins
    · rename_i hi
      obtain rfl := Option.some.inj h
      exact .joined hhalt (List.getElem?_eq_none_iff.mp hi)
  · rename_i hhalt
    obtain ⟨hjoins, h⟩ := Option.ite_none_right_eq_some.mp h
    obtain rfl := Option.some.inj h
    exact .clear hhalt hjoins
  · exact absurd h (by simp)
  · exact absurd h (by simp)

theorem make_work_steps (h : s.make_work_step = some t) : s.Steps .make_work_thread t := by
  rw [make_work_step] at h
  split at h
  · rename_i hmake
    obtain rfl := Option.some.inj h
    exact .make_work_test hmake
  · rename_i hmake
    obtain rfl := Option.some.inj h
    exact .make_work hmake
  · exact absurd h (by simp)
  · exact absurd h (by simp)

theorem step_steps (h : s.step e = some t) : s.Steps e t := by
  cases e with
  | call call => exact call_steps h
  | owner => exact owner_steps h
  | thread id => exact thread_steps h
  | handler_halt id => exact handler_halt_steps h
  | halt_thread => exact halt_thread_steps h
  | make_work_thread => exact make_work_steps h

end WorkerObject

end RoboCrisp.Util
