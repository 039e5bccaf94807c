import RoboCrisp.Util.SharedQueue.Waiting
import RoboCrisp.Transition.Run
import Mathlib.Logic.Function.Basic

namespace RoboCrisp.Util

open RoboCrisp.Transition

-- A call of next(aborted). `aborted` is the flag behind the pointer, where there is one.
structure FlaggedCall (α : Type) where
  call : NextCall α
  aborted : Option Bool
deriving DecidableEq

-- Back without an item.
def NextCall.aborts {α : Type} : NextCall α → Bool
  | .returned none => true
  | _ => false

-- Back with one.
def NextCall.item {α : Type} : NextCall α → Option α
  | .returned out => out
  | _ => none

-- No call is under way.
def NextCall.ended {α : Type} : NextCall α → Bool
  | .returned _ => true
  | _ => false

namespace WaitedQueue

variable {α : Type} {queue queue' : WaitedQueue α}

-- The next step of a call. Without a pointer the look at m_aborted before the lock is left out.
def flagged_step (queue : WaitedQueue α) (next : FlaggedCall α) :
    Option (WaitedQueue α × FlaggedCall α) :=
  match next with
  | ⟨.entered, none⟩ => some (queue, ⟨.unaborted, none⟩)
  | ⟨call, aborted⟩ => do
      let (queue, call) ← queue.next_step call
      return (queue, ⟨call, if call.aborts then aborted.map fun _ => true else aborted⟩)

-- What a step of a call leaves of the items: an item that it is back with was the first one,
-- and without an item it takes none.
structure Fetches (queue : WaitedQueue α) (call : NextCall α) (queue' : WaitedQueue α) : Prop where
  items : queue.items = call.item.toList ++ queue'.items
  aborted : call.aborts = true → queue.m_aborted = true

theorem fetches_next {out : Option α} {rest : SharedQueue α} {count : Nat}
    (h : queue.next = some (out, rest)) : queue.Fetches (.returned out) ⟨rest, count⟩ := by
  cases out with
  | none =>
      constructor
      · rw [SharedQueue.eq_of_next_aborted h]
        rfl
      · intro _
        by_contra hrunning
        rw [SharedQueue.next, if_neg hrunning] at h
        split at h <;> simp at h
  | some value =>
      constructor
      · exact SharedQueue.items_of_next_item h
      · simp [NextCall.aborts]

theorem Steps.fetches {call call' : NextCall α} (h : queue.Steps call queue' call') :
    queue.Fetches call' queue' := by
  cases h with
  | abort haborted => exact ⟨rfl, fun _ => haborted⟩
  | pass => exact ⟨rfl, by simp [NextCall.aborts]⟩
  | wait => exact ⟨rfl, by simp [NextCall.aborts]⟩
  | fetch hnext => exact fetches_next hnext
  | wake hnext => exact fetches_next hnext

theorem flagged_step_fetches {next next' : FlaggedCall α}
    (h : queue.flagged_step next = some (queue', next')) : queue.Fetches next'.call queue' ∧
      next'.aborted = if next'.call.aborts then next.aborted.map fun _ => true else next.aborted := by
  unfold flagged_step at h
  split at h
  · obtain ⟨rfl, rfl⟩ := Prod.mk.inj (Option.some.inj h)
    exact ⟨⟨rfl, by simp [NextCall.aborts]⟩, by simp⟩
  · obtain ⟨⟨middle, call⟩, hstep, h⟩ := Option.bind_eq_some_iff.mp h
    obtain ⟨rfl, rfl⟩ := Prod.mk.inj (Option.some.inj h)
    exact ⟨(next_step_steps hstep).fetches, rfl⟩

end WaitedQueue

-- A queue and the threads that call next(). `inserted` and `removed` record what has been put in
-- and what the calls have come back with, in the order in which the mutex was held.
structure QueueUse (ι α : Type) where
  queue : WaitedQueue α
  calls : ι → Option (FlaggedCall α)
  inserted : List α
  removed : List (ι × α)

inductive QueueEvent (ι α : Type)
  | push (value : α)
  | emplace (value : α)
  | wake_all
  | next (thread : ι) (aborted : Option Bool)
  | turn (thread : ι)

namespace QueueUse

variable {ι α : Type}

-- The constructor passes its arguments on to the queue, and leaves the count of the waiting
-- threads as it finds it.
def start (items : List α) (m_num_waiters : Nat) : QueueUse ι α where
  queue := ⟨⟨items, false⟩, m_num_waiters⟩
  calls := fun _ => none
  inserted := items
  removed := []

def Fifo (s : QueueUse ι α) : Prop := s.inserted = s.removed.map Prod.snd ++ s.queue.items

theorem start_fifo (items : List α) (m_num_waiters : Nat) :
    (start items m_num_waiters : QueueUse ι α).Fifo := by
  simp [Fifo, start]

variable [DecidableEq ι]

def step (s : QueueUse ι α) : QueueEvent ι α → Option (QueueUse ι α)
  | .push value =>
      some { s with queue := s.queue.push value, inserted := s.inserted ++ [value] }
  | .emplace value =>
      some { s with queue := s.queue.emplace value, inserted := s.inserted ++ [value] }
  | .wake_all => some { s with queue := s.queue.wake_all }
  | .next thread aborted =>
      if (s.calls thread).all fun next => next.call.ended then
        some { s with calls := Function.update s.calls thread (some ⟨.entered, aborted⟩) }
      else none
  | .turn thread => do
      let next ← s.calls thread
      let (queue, next) ← s.queue.flagged_step next
      return { s with
        queue
        calls := Function.update s.calls thread (some next)
        removed := s.removed ++ (next.call.item.map fun value => (thread, value)).toList }

variable {s u : QueueUse ι α} {trace : List (QueueEvent ι α)}

-- All that a turn of a call can do.
theorem turn_some {thread : ι} (h : s.step (.turn thread) = some u) : ∃ next next',
    s.calls thread = some next ∧ u.calls thread = some next' ∧ u.inserted = s.inserted ∧
      s.queue.Fetches next'.call u.queue ∧
      u.removed = s.removed ++ (next'.call.item.map fun value => (thread, value)).toList ∧
      next'.aborted = if next'.call.aborts then next.aborted.map fun _ => true else next.aborted := by
  obtain ⟨next, hcall, h⟩ := Option.bind_eq_some_iff.mp h
  obtain ⟨⟨queue, next'⟩, hstep, h⟩ := Option.bind_eq_some_iff.mp h
  obtain rfl := Option.some.inj h
  obtain ⟨hfetches, haborted⟩ := WaitedQueue.flagged_step_fetches hstep
  exact ⟨next, next', hcall, by simp, rfl, hfetches, rfl, haborted⟩

theorem Fifo.step {e : QueueEvent ι α} (h : s.Fifo) (hstep : s.step e = some u) : u.Fifo := by
  unfold Fifo at h ⊢
  cases e with
  | push value =>
      obtain rfl := Option.some.inj hstep
      simp [h, WaitedQueue.push, SharedQueue.push]
  | emplace value =>
      obtain rfl := Option.some.inj hstep
      simp [h, WaitedQueue.emplace]
  | wake_all =>
      obtain rfl := Option.some.inj hstep
      simp [h, WaitedQueue.wake_all, SharedQueue.wake_all]
  | next thread aborted =>
      obtain ⟨-, hstep⟩ := Option.ite_none_right_eq_some.mp hstep
      obtain rfl := Option.some.inj hstep
      exact h
  | turn thread =>
      obtain ⟨next, next', -, -, hinserted, hfetches, hremoved, -⟩ := turn_some hstep
      rw [hinserted, h, hremoved, hfetches.items]
      cases next'.call.item <;> simp

-- In any run the calls come back with the items in the order in which they have been put in. A
-- call that comes back without one does so because of an abort, takes nothing and sets its flag.
theorem run_fifo {items : List α} {m_num_waiters : Nat}
    (hrun : Run step Always (start items m_num_waiters) trace s) :
    s.removed.map Prod.snd <+: s.inserted ∧ s.inserted = s.removed.map Prod.snd ++ s.queue.items ∧
      ∀ thread u, s.step (.turn thread) = some u → ∀ out aborted,
        u.calls thread = some ⟨.returned out, aborted⟩ →
          u.removed = s.removed ++ (out.map fun value => (thread, value)).toList ∧
          s.queue.items = out.toList ++ u.queue.items ∧
          (out = none → s.queue.m_aborted = true ∧
            ∃ next, s.calls thread = some next ∧ aborted = next.aborted.map fun _ => true) := by
  have hfifo : s.Fifo := hrun.invariant (start_fifo items m_num_waiters)
    fun h _ hstep => h.step hstep
  refine ⟨?_, hfifo, ?_⟩
  · rw [hfifo]
    exact List.prefix_append _ _
  · intro thread u hstep out aborted hreturned
    obtain ⟨next, next', hcall, hcall', -, hfetches, hremoved, haborted⟩ := turn_some hstep
    obtain rfl : next' = ⟨.returned out, aborted⟩ := Option.some.inj (hcall'.symm.trans hreturned)
    refine ⟨hremoved, hfetches.items, ?_⟩
    rintro rfl
    exact ⟨hfetches.aborted rfl, next, hcall, haborted⟩

-- The first thread waits when the second comes and takes the item, and is woken without one.
def overtaking : List (QueueEvent Bool Nat) :=
  [.next false (some false), .turn false, .turn false, .push 7, .next true none, .turn true,
    .turn true, .wake_all, .turn false]

def overtaken : QueueUse Bool Nat :=
  (overtaking.foldlM (guarded step Always) (start [] 0)).get (by decide)

theorem overtaken_fifo : overtaken.calls false = some ⟨.returned none, some true⟩ ∧
    overtaken.removed.map Prod.snd <+: overtaken.inserted ∧
    overtaken.inserted = overtaken.removed.map Prod.snd ++ overtaken.queue.items := by
  have hrun : Run step Always (start [] 0) overtaking overtaken :=
    Run.of_foldlM (Option.some_get _).symm
  obtain ⟨hfirst, hall, -⟩ := run_fifo hrun
  exact ⟨by decide, hfirst, hall⟩

end QueueUse

end RoboCrisp.Util
