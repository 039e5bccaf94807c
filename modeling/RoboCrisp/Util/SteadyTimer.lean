import Mathlib.Data.List.Count
import Mathlib.Data.List.Perm.Basic

namespace RoboCrisp.Util

-- A timer with the waits on it that can still be aborted, given by what waits, and the
-- completion handlers that its io_service has got, each with whether that will be told of
-- success. What has expired can be aborted no more.
structure SteadyTimer (W : Type) where
  waits : List W
  completions : List (W × Bool)
deriving DecidableEq

namespace SteadyTimer

variable {W : Type} (timer : SteadyTimer W) {w : W}

def empty : SteadyTimer W := ⟨[], []⟩

def cancel : SteadyTimer W :=
  ⟨[], timer.completions ++ timer.waits.map fun w => (w, false)⟩

-- A new expiry time aborts the waits for the old one.
def expires_from_now : SteadyTimer W := timer.cancel

def async_wait (w : W) : SteadyTimer W := { timer with waits := timer.waits ++ [w] }

-- The time has come.
def expire : SteadyTimer W :=
  ⟨[], timer.completions ++ timer.waits.map fun w => (w, true)⟩

-- The io_service calls one of the handlers.
def complete (i : Nat) : Option ((W × Bool) × SteadyTimer W) :=
  timer.completions[i]?.map fun completion =>
    (completion, { timer with completions := timer.completions.eraseIdx i })

-- A handler for `w` will be called with success, unless its wait is aborted before.
def Pends (w : W) : Prop := w ∈ timer.waits ∨ (w, true) ∈ timer.completions

theorem pends_cancel : timer.cancel.Pends w ↔ (w, true) ∈ timer.completions := by
  simp [Pends, cancel]

theorem pends_expire : timer.expire.Pends w ↔ timer.Pends w := by
  simp [Pends, expire, or_comm]

theorem foldl_async_wait (ws : List W) :
    ws.foldl async_wait timer = { timer with waits := timer.waits ++ ws } := by
  induction ws generalizing timer with
  | nil => rw [List.append_nil, List.foldl_nil]
  | cons w ws ih => rw [List.foldl_cons, ih, async_wait, List.append_assoc, List.singleton_append]

theorem complete_some {timer later : SteadyTimer W} {i : Nat} {completion : W × Bool}
    (h : timer.complete i = some (completion, later)) :
    timer.completions[i]? = some completion ∧
      later = { timer with completions := timer.completions.eraseIdx i } := by
  obtain ⟨first, hfirst, heq⟩ := Option.map_eq_some_iff.mp h
  obtain ⟨rfl, rfl⟩ := Prod.mk.inj heq
  exact ⟨hfirst, rfl⟩

theorem pends_of_complete {timer later : SteadyTimer W} {i : Nat} {completion : W × Bool}
    (h : timer.complete i = some (completion, later)) (hpends : later.Pends w) : timer.Pends w := by
  obtain ⟨-, rfl⟩ := complete_some h
  exact hpends.imp_right List.mem_of_mem_eraseIdx

section Counts

variable [DecidableEq W]

def armed (w : W) : Nat := timer.waits.count w

def queued (w : W) : Nat := timer.completions.count (w, true)

@[simp]
theorem armed_cancel : timer.cancel.armed w = 0 := List.count_nil

@[simp]
theorem armed_expire : timer.expire.armed w = 0 := List.count_nil

@[simp]
theorem queued_cancel : timer.cancel.queued w = timer.queued w := by
  have haborted : (timer.waits.map fun w => (w, false)).count (w, true) = 0 := by
    rw [List.count_eq_zero]
    simp
  rw [queued, cancel, List.count_append, haborted, Nat.add_zero, queued]

@[simp]
theorem queued_expire : timer.expire.queued w = timer.queued w + timer.armed w := by
  rw [queued, expire, List.count_append, queued, armed, Nat.add_left_cancel_iff]
  exact List.count_map_of_injective _ _ (fun _ _ h => (Prod.mk.inj h).1) _

theorem armed_of_complete {timer later : SteadyTimer W} {i : Nat} {completion : W × Bool}
    (h : timer.complete i = some (completion, later)) : later.armed w = timer.armed w := by
  obtain ⟨-, rfl⟩ := complete_some h
  rfl

theorem queued_of_complete {timer later : SteadyTimer W} {i : Nat} {completion : W × Bool}
    (h : timer.complete i = some (completion, later)) :
    later.queued w + (if completion = (w, true) then 1 else 0) = timer.queued w := by
  obtain ⟨hi, rfl⟩ := complete_some h
  obtain ⟨hlt, rfl⟩ := List.getElem?_eq_some_iff.mp hi
  have hcount := (List.getElem_cons_eraseIdx_perm hlt).count_eq (w, true)
  rw [List.count_cons] at hcount
  simpa only [queued, beq_iff_eq] using hcount

end Counts

end SteadyTimer

end RoboCrisp.Util
