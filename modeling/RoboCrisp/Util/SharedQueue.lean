import Mathlib.Data.List.Basic

namespace RoboCrisp.Util

-- The queue behind the mutex. Each operation is one step.
structure SharedQueue (α : Type) where
  items : List α
  m_aborted : Bool

namespace SharedQueue

variable {α : Type}

def empty : SharedQueue α := ⟨[], false⟩

def push (queue : SharedQueue α) (value : α) : SharedQueue α :=
  { queue with items := queue.items ++ [value] }

def emplace (queue : SharedQueue α) (value : α) : SharedQueue α :=
  { queue with items := queue.items ++ [value] }

def wake_all (queue : SharedQueue α) : SharedQueue α := { queue with m_aborted := true }

-- next(&aborted). There is no result while the call blocks, and no item when it is aborted.
def next (queue : SharedQueue α) : Option (Option α × SharedQueue α) :=
  if queue.m_aborted then some (none, queue)
  else match queue.items with
    | [] => none
    | value :: rest => some (some value, { queue with items := rest })

variable {queue queue' : SharedQueue α}

@[simp] theorem items_emplace (queue : SharedQueue α) (value : α) :
    (queue.emplace value).items = queue.items ++ [value] := rfl

theorem items_of_next_item {value : α} (h : queue.next = some (some value, queue')) :
    queue.items = value :: queue'.items := by
  rw [next] at h
  split at h
  · exact absurd (Prod.mk.inj (Option.some.inj h)).1 (by simp)
  · split at h
    · exact absurd h (by simp)
    · rename_i hitems
      obtain ⟨hvalue, rfl⟩ := Prod.mk.inj (Option.some.inj h)
      rw [hitems, Option.some.inj hvalue]

theorem eq_of_next_aborted (h : queue.next = some (none, queue')) : queue' = queue := by
  rw [next] at h
  split at h
  · exact (Prod.mk.inj (Option.some.inj h)).2.symm
  · split at h
    · exact absurd h (by simp)
    · exact absurd (Prod.mk.inj (Option.some.inj h)).1 (by simp)

theorem m_aborted_of_next {out : Option α} (h : queue.next = some (out, queue')) :
    queue'.m_aborted = queue.m_aborted := by
  rw [next] at h
  split at h
  · rw [(Prod.mk.inj (Option.some.inj h)).2]
  · split at h
    · exact absurd h (by simp)
    · rw [← (Prod.mk.inj (Option.some.inj h)).2]

end SharedQueue

end RoboCrisp.Util
