import Mathlib.Data.List.Perm.Basic
import RoboCrisp.Util.TimedActions.Lifetime

namespace RoboCrisp.Util

open RoboCrisp.Transition

namespace ActionEvent

variable {F : Type}

def expires (id : Nat) : ActionEvent F → Nat
  | .expire x => if x = id then 1 else 0
  | _ => 0

def resets (id : Nat) : ActionEvent F → Nat
  | .reset x _ _ => if x = id then 1 else 0
  | _ => 0

end ActionEvent

namespace TimedActions

variable {F : Type} {s s' : TimedActions F} {i id x : Nat} {ok : Bool} {action : TimedAction F}
  {e : ActionEvent F} {h : ActionHandler}

-- How often the function of an action has been called.
def calls (s : TimedActions F) (id : Nat) : Nat := (s.called.map Prod.fst).count id

-- How often it is to be called by what the io_service has got.
def queued (s : TimedActions F) (id : Nat) : Nat := s.posted.count (.expiry id true)

-- Whether a wait is under way.
def waits (s : TimedActions F) (id : Nat) : Nat :=
  match s.m_actions id with
  | some action => if action.waiting then 1 else 0
  | none => 0

theorem count_aborted : (aborted x action).count (.expiry id true) = 0 := by
  rw [List.count_eq_zero]
  intro hmem
  exact absurd (mem_aborted.mp hmem).2 (by simp)

theorem queued_abort : (s.abort x action).queued id = s.queued id := by
  simp only [queued, abort, List.count_append, count_aborted, Nat.add_zero]

theorem queued_arm {when : Int} : (s.arm x action when).queued id = s.queued id := queued_abort

theorem queued_destroy : (s.destroy x action).queued id = s.queued id := by
  simp only [queued, destroy, List.count_append, count_aborted, Nat.add_zero]

theorem queued_post_removal : (s.post (.removal x)).queued id = s.queued id := by
  simp [queued, post]

theorem queued_post_expiry :
    (s.post (.expiry x true)).queued id = s.queued id + if x = id then 1 else 0 := by
  simp [queued, post, List.count_singleton]

-- What one call takes out of a list leaves the others there.
theorem perm_eraseIdx {α : Type} {l : List α} {a : α} (hget : l[i]? = some a) :
    (a :: l.eraseIdx i).Perm l := by
  obtain ⟨hlt, rfl⟩ := List.getElem?_eq_some_iff.mp hget
  exact List.getElem_cons_eraseIdx_perm hlt

theorem queued_pop (hposted : s.posted[i]? = some h) : s.queued id =
    { s with posted := s.posted.eraseIdx i }.queued id + if h = .expiry id true then 1 else 0 := by
  have hcount := (perm_eraseIdx hposted).count_eq (.expiry id true)
  rw [List.count_cons] at hcount
  simpa only [queued, beq_iff_eq] using hcount.symm

theorem queued_pop_of_ne (hposted : s.posted[i]? = some h) (hne : h ≠ .expiry id true) :
    { s with posted := s.posted.eraseIdx i }.queued id = s.queued id := by
  rw [queued_pop hposted, if_neg hne, Nat.add_zero]

-- Each expiry of an action is followed by one call of its function.
theorem calls_step (hstep : s.step e = some s') :
    s'.calls id + s'.queued id = s.calls id + s.queued id + e.expires id := by
  cases step_steps hstep with
  | set_timer duration function => exact congrArg (_ + ·) queued_arm
  | insert haction hinserted => rfl
  | reset when function haction => exact congrArg (_ + ·) queued_arm
  | cancel haction =>
      rw [queued_post_removal, queued_abort]
      rfl
  | remove haction hinserted =>
      rw [queued_destroy]
      rfl
  | remove_missing hmissing => rfl
  | pass n => rfl
  | expire haction hwaiting hdue =>
      rw [queued_post_expiry, ← Nat.add_assoc]
      rfl
  | @call i x action hposted haction =>
      have hcalls : (s.called.map Prod.fst ++ [x]).count id = s.calls id + if x = id then 1 else 0 := by
        simp [calls, List.count_singleton]
      rw [queued_pop hposted]
      simp only [calls, List.map_append, List.map_singleton, hcalls, ActionHandler.expiry.injEq, and_true,
        ActionEvent.expires, queued]
      omega
  | skip hposted haction => exact congrArg (_ + ·) (queued_pop_of_ne hposted (by simp))
  | removal hposted haction hinserted =>
      rw [queued_destroy, queued_pop_of_ne hposted (by simp)]
      rfl
  | removal_missing hposted hmissing => exact congrArg (_ + ·) (queued_pop_of_ne hposted (by simp))
  | finish hrunning haction hlater => rfl
  | finish_late hrunning haction hlate =>
      rw [queued_post_removal, queued_abort]
      rfl

theorem waits_store : (s.store x action).waits id =
    if x = id then (if action.waiting then 1 else 0) else s.waits id := by
  by_cases hx : x = id
  · subst hx
    simp [waits, store]
  · simp [waits, store, Function.update_of_ne (Ne.symm hx), hx]

theorem waits_abort : (s.abort x action).waits id = if x = id then 0 else s.waits id := by
  have hstore : (s.store x { action with waiting := false }).waits id = _ := waits_store
  exact hstore

theorem waits_arm {when : Int} : (s.arm x action when).waits id = if x = id then 1 else s.waits id := by
  have hstore : ((s.abort x action).store x
      { action with expires_at := when, waiting := true }).waits id = _ := waits_store
  rw [waits_abort] at hstore
  split
  · rename_i hx
    rw [if_pos hx] at hstore
    exact hstore
  · rename_i hx
    rw [if_neg hx, if_neg hx] at hstore
    exact hstore

theorem waits_destroy : (s.destroy x action).waits id = if x = id then 0 else s.waits id := by
  by_cases hx : x = id
  · subst hx
    simp [waits, destroy]
  · simp [waits, destroy, Function.update_of_ne (Ne.symm hx), hx]

theorem waits_abort_le : (s.abort x action).waits id ≤ s.waits id := by
  rw [waits_abort]
  split
  · exact Nat.zero_le _
  · exact Nat.le_refl _

theorem waits_destroy_le : (s.destroy x action).waits id ≤ s.waits id := by
  rw [waits_destroy]
  split
  · exact Nat.zero_le _
  · exact Nat.le_refl _

theorem waits_of_some (haction : s.m_actions id = some action) :
    s.waits id = if action.waiting then 1 else 0 := by
  simp only [waits, haction]

theorem waits_of_not_owns (h : ¬s.Owns id) : s.waits id = 0 := by
  simp only [waits, not_owns_iff.mp h]

theorem waits_insert (haction : s.m_actions x = some action) :
    (s.store x { action with inserted := true }).waits id = s.waits id := by
  rw [waits_store]
  split
  · rename_i hx
    rw [← hx, waits_of_some haction]
  · rfl

-- The calls of an action that there have been and can still be, unless it is reset. An action that
-- is yet to come has one ahead.
def budget (s : TimedActions F) (id : Nat) : Nat :=
  s.calls id + s.queued id + s.waits id + if id < s.next_id then 0 else 1

theorem budget_le (hcalls : s'.calls id + s'.queued id = s.calls id + s.queued id + e.expires id)
    (hnext : s'.next_id = s.next_id)
    (hwaits : s'.waits id + e.expires id ≤ s.waits id + e.resets id) :
    s'.budget id ≤ s.budget id + e.resets id := by
  unfold budget
  rw [hnext]
  omega

theorem budget_step (hstep : s.step e = some s') :
    s'.budget id ≤ s.budget id + e.resets id := by
  have hcalls : s'.calls id + s'.queued id = s.calls id + s.queued id + e.expires id := calls_step hstep
  cases step_steps hstep with
  | set_timer duration function =>
      have hwaits : (s.set_timer duration function).waits id =
          if s.next_id = id then 1 else s.waits id := waits_arm
      have hnext : (s.set_timer duration function).next_id = s.next_id + 1 := rfl
      by_cases hid : s.next_id = id
      · rw [if_pos hid] at hwaits
        unfold budget
        rw [hcalls, hwaits, hnext, if_pos (by omega), if_neg (by omega)]
        simp only [ActionEvent.expires, ActionEvent.resets]
        omega
      · rw [if_neg hid] at hwaits
        have hlt : (id < s.next_id + 1) = (id < s.next_id) := propext ⟨by omega, by omega⟩
        unfold budget
        simp only [hcalls, hwaits, hnext, hlt, ActionEvent.expires, ActionEvent.resets]
        exact Nat.le_refl _
  | insert haction hinserted => exact budget_le hcalls rfl (Nat.le_of_eq (waits_insert haction))
  | @reset x action when function haction =>
      refine budget_le hcalls rfl ?_
      rw [waits_arm]
      simp only [ActionEvent.expires, ActionEvent.resets]
      split <;> omega
  | cancel haction => exact budget_le hcalls rfl waits_abort_le
  | remove haction hinserted => exact budget_le hcalls rfl waits_destroy_le
  | remove_missing hmissing => exact Nat.le_refl _
  | pass n => exact Nat.le_refl _
  | @expire x action haction hwaiting hdue =>
      have hwaits : ((s.store x { action with waiting := false }).post (.expiry x true)).waits id =
          if x = id then 0 else s.waits id := waits_store
      refine budget_le hcalls rfl ?_
      rw [hwaits]
      simp only [ActionEvent.expires, ActionEvent.resets]
      split
      · rename_i hx
        have hone : s.waits id = 1 := by rw [← hx, waits_of_some haction, if_pos hwaiting]
        omega
      · exact Nat.le_refl _
  | call | skip | removal_missing | finish => exact budget_le hcalls rfl (Nat.le_refl _)
  | removal hposted haction hinserted => exact budget_le hcalls rfl waits_destroy_le
  | finish_late hrunning haction hlate => exact budget_le hcalls rfl waits_abort_le

-- An action that has no wait under way gets one only by reset().
structure Over (s : TimedActions F) (id : Nat) : Prop where
  lt : id < s.next_id
  waits : s.waits id = 0

theorem Over.keep (hover : s.Over id) (hnext : s'.next_id = s.next_id) (hwaits : s'.waits id ≤ s.waits id) :
    s'.Over id where
  lt := hnext ▸ hover.lt
  waits := Nat.eq_zero_of_le_zero (hover.waits ▸ hwaits)

theorem Over.step (hover : s.Over id) (hreset : e.resets id = 0) (hstep : s.step e = some s') :
    s'.Over id ∧ e.expires id = 0 := by
  cases step_steps hstep with
  | set_timer duration function =>
      have hwaits : (s.set_timer duration function).waits id =
          if s.next_id = id then 1 else s.waits id := waits_arm
      rw [if_neg (Nat.ne_of_gt hover.lt), hover.waits] at hwaits
      exact ⟨⟨Nat.lt_succ_of_lt hover.lt, hwaits⟩, rfl⟩
  | insert haction hinserted => exact ⟨hover.keep rfl (Nat.le_of_eq (waits_insert haction)), rfl⟩
  | @reset x action when function haction =>
      have hx : x ≠ id := by
        rintro rfl
        simp [ActionEvent.resets] at hreset
      exact ⟨hover.keep rfl (Nat.le_of_eq (waits_arm.trans (if_neg hx))), rfl⟩
  | cancel haction => exact ⟨hover.keep rfl waits_abort_le, rfl⟩
  | remove haction hinserted => exact ⟨hover.keep rfl waits_destroy_le, rfl⟩
  | remove_missing hmissing => exact ⟨hover, rfl⟩
  | pass n => exact ⟨⟨hover.lt, hover.waits⟩, rfl⟩
  | @expire x action haction hwaiting hdue =>
      have hx : x ≠ id := by
        rintro rfl
        have hzero := hover.waits
        rw [waits_of_some haction, if_pos hwaiting] at hzero
        contradiction
      refine ⟨hover.keep rfl (Nat.le_of_eq ?_), if_neg hx⟩
      exact waits_store.trans (if_neg hx)
  | call hposted haction | skip hposted haction | removal_missing hposted hmissing
  | finish hrunning haction hlater => exact ⟨hover.keep rfl (Nat.le_refl _), rfl⟩
  | removal hposted haction hinserted => exact ⟨hover.keep rfl waits_destroy_le, rfl⟩
  | finish_late hrunning haction hlate => exact ⟨hover.keep rfl waits_abort_le, rfl⟩

-- Once an action is cancelled, what has expired before is called, and nothing else, whatever the
-- io_service does, unless the action is reset.
theorem calls_after_cancel {now : Int} {before after : List (ActionEvent F)} {middle t : TimedActions F}
    (hbefore : Run step Always (start now) before s) (hcancel : s.step (.cancel id) = some middle)
    (hafter : Run step (fun _ e => e.resets id = 0) middle after t) :
    t.calls id + t.queued id = s.calls id + s.queued id := by
  have hkept : t.Over id ∧ t.calls id + t.queued id = s.calls id + s.queued id := by
    induction hafter with
    | start =>
        refine ⟨?_, calls_step hcancel⟩
        cases step_steps hcancel with
        | cancel haction =>
            have hn : s.Numbered := hbefore.invariant (numbered_start now) fun hn _ => hn.step
            exact ⟨hn.owned id ⟨_, haction⟩, waits_abort.trans (if_pos rfl)⟩
    | next hrun hreset hstep ih =>
        obtain ⟨hover, heq⟩ := ih
        obtain ⟨hover', hexpires⟩ := hover.step hreset hstep
        exact ⟨hover', by rw [calls_step hstep, hexpires, Nat.add_zero, heq]⟩
  exact hkept.2

-- The timer has run out when its action is cancelled, and the function is called nevertheless. The
-- io_service takes the removal first.
theorem calls_after_cancel_late : ∃ s middle t : TimedActions Nat,
    Run step Always (start 0) [.set_timer 5 0, .insert 0, .pass 5, .expire 0] s ∧
      s.step (.cancel 0) = some middle ∧
      Run step (fun _ e => e.resets 0 = 0) middle [.handler 0, .pass 1, .finish 0, .handler 0, .handler 0] t ∧
      t.calls 0 + t.queued 0 = 1 := by
  obtain ⟨s, middle, t, hbefore, hcancel, hafter, hone⟩ : ∃ s middle t : TimedActions Nat,
      Run step Always (start 0) [.set_timer 5 0, .insert 0, .pass 5, .expire 0] s ∧
        s.step (.cancel 0) = some middle ∧
        Run step (fun _ e => e.resets 0 = 0) middle
          [.handler 0, .pass 1, .finish 0, .handler 0, .handler 0] t ∧
        s.calls 0 + s.queued 0 = 1 :=
    ⟨_, _, _, Run.of_foldlM rfl, rfl, Run.of_foldlM rfl, rfl⟩
  exact ⟨s, middle, t, hbefore, hcancel, hafter, (calls_after_cancel hbefore hcancel hafter).trans hone⟩

end TimedActions

end RoboCrisp.Util
