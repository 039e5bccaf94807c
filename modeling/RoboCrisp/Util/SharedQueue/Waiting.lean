import RoboCrisp.Util.SharedQueue

namespace RoboCrisp.Util

-- The queue with the number of the threads that wait for an item.
structure WaitedQueue (α : Type) extends SharedQueue α where
  m_num_waiters : Nat

-- How far a thread has got with next(&aborted): before the first look at m_aborted, before the
-- lock, in m_cv.wait, or back from the call, with no item when it was aborted.
inductive NextCall (α : Type)
  | entered
  | unaborted
  | waiting
  | returned (out : Option α)
deriving DecidableEq

namespace WaitedQueue

variable {α : Type}

def push (queue : WaitedQueue α) (value : α) : WaitedQueue α :=
  { queue with toSharedQueue := queue.toSharedQueue.push value }

def emplace (queue : WaitedQueue α) (value : α) : WaitedQueue α :=
  { queue with toSharedQueue := queue.toSharedQueue.emplace value }

def wake_all (queue : WaitedQueue α) : WaitedQueue α :=
  { queue with toSharedQueue := queue.toSharedQueue.wake_all }

-- What is done under the lock when the queue has an item or has been aborted.
def take (queue : WaitedQueue α) : Option (WaitedQueue α × NextCall α) := do
  let (out, toSharedQueue) ← queue.toSharedQueue.next
  return ({ queue with toSharedQueue }, .returned out)

-- The next step of a call. With the lock it goes on up to the wait or to the end. A thread that
-- waits goes on when the condition that it waits for holds.
def next_step (queue : WaitedQueue α) : NextCall α → Option (WaitedQueue α × NextCall α)
  | .entered => some (queue, if queue.m_aborted then .returned none else .unaborted)
  | .unaborted =>
      if queue.items = [] ∧ ¬queue.m_aborted then
        some ({ queue with m_num_waiters := queue.m_num_waiters + 1 }, .waiting)
      else queue.take
  | .waiting =>
      if queue.items = [] ∧ ¬queue.m_aborted then none
      else { queue with m_num_waiters := queue.m_num_waiters - 1 }.take
  | .returned _ => none

variable {queue queue' : WaitedQueue α} {call call' : NextCall α}

-- All that a step of a call can do.
inductive Steps (queue : WaitedQueue α) : NextCall α → WaitedQueue α → NextCall α → Prop
  | abort (haborted : queue.m_aborted = true) : Steps queue .entered queue (.returned none)
  | pass (hrunning : queue.m_aborted = false) : Steps queue .entered queue .unaborted
  | wait (hitems : queue.items = []) (hrunning : queue.m_aborted = false) :
      Steps queue .unaborted { queue with m_num_waiters := queue.m_num_waiters + 1 } .waiting
  | fetch {out : Option α} {toSharedQueue : SharedQueue α}
      (hnext : queue.next = some (out, toSharedQueue)) :
      Steps queue .unaborted { queue with toSharedQueue } (.returned out)
  | wake {out : Option α} {toSharedQueue : SharedQueue α}
      (hnext : queue.next = some (out, toSharedQueue)) :
      Steps queue .waiting ⟨toSharedQueue, queue.m_num_waiters - 1⟩ (.returned out)

theorem next_step_steps (h : queue.next_step call = some (queue', call')) :
    queue.Steps call queue' call' := by
  cases call with
  | entered =>
      obtain ⟨rfl, rfl⟩ := Prod.mk.inj (Option.some.inj h)
      split
      · exact .abort ‹_›
      · exact .pass (Bool.eq_false_iff.mpr ‹_›)
  | unaborted =>
      rw [next_step] at h
      split at h
      · rename_i hempty
        obtain ⟨rfl, rfl⟩ := Prod.mk.inj (Option.some.inj h)
        exact .wait hempty.1 (Bool.eq_false_iff.mpr hempty.2)
      · obtain ⟨⟨out, rest⟩, hnext, h⟩ := Option.bind_eq_some_iff.mp h
        obtain ⟨rfl, rfl⟩ := Prod.mk.inj (Option.some.inj h)
        exact .fetch hnext
  | waiting =>
      rw [next_step] at h
      split at h
      · exact absurd h (by simp)
      · obtain ⟨⟨out, rest⟩, hnext, h⟩ := Option.bind_eq_some_iff.mp h
        obtain ⟨rfl, rfl⟩ := Prod.mk.inj (Option.some.inj h)
        exact .wake hnext
  | returned => exact absurd h (by simp [next_step])

theorem Steps.m_aborted (h : queue.Steps call queue' call') : queue'.m_aborted = queue.m_aborted := by
  cases h with
  | abort => rfl
  | pass => rfl
  | wait => rfl
  | fetch hnext => exact SharedQueue.m_aborted_of_next hnext
  | wake hnext => exact SharedQueue.m_aborted_of_next hnext

end WaitedQueue

end RoboCrisp.Util
