import RoboCrisp.Util.Signal

namespace RoboCrisp.Util

open RoboCrisp.Transition Snapshot

variable {F : Type}

def HandlerOp.removes (a : Nat) : HandlerOp F → Bool
  | .connect _ => false
  | .remove other => other = a
  | .clear => true

-- The handler of one action removes another from the signal.
def Removes (effects : Nat → List (HandlerOp F)) (b a : Nat) : Prop :=
  (effects b).any (HandlerOp.removes a) = true

instance (effects : Nat → List (HandlerOp F)) : DecidableRel (Removes effects) :=
  fun _ _ => inferInstanceAs (Decidable (_ = true))

namespace Signals

variable {w v w' : Signals F} {s a : Nat} {effects : Nat → List (HandlerOp F)} {done order : List Nat}

-- Another signal has the action, through a copy or a move.
def HeldElsewhere (w : Signals F) (s a : Nat) : Prop :=
  ∃ other < w.signals.length, other ≠ s ∧ a ∈ w.m_actions other

instance (w : Signals F) (s : Nat) : DecidablePred (w.HeldElsewhere s) :=
  fun _ => inferInstanceAs (Decidable (∃ other < _, _))

-- What the calls of some handlers leave of the signals.
structure Performed (s : Nat) (removed : Nat → Prop) (w v : Signals F) : Prop where
  signals : v.signals.length = w.signals.length
  actions : w.actions.length ≤ v.actions.length
  others : ∀ j, j ≠ s → v.m_actions j = w.m_actions j
  mem : ∀ a < w.actions.length, a ∈ v.m_actions s ↔ a ∈ w.m_actions s ∧ ¬removed a

theorem Performed.refl (w : Signals F) : Performed s (fun _ => False) w w :=
  ⟨rfl, Nat.le_refl _, fun _ _ => rfl, fun _ _ => (and_iff_left not_false).symm⟩

theorem Performed.trans {removed later : Nat → Prop} (h : Performed s removed w v)
    (hlater : Performed s later v w') : Performed s (fun a => removed a ∨ later a) w w' := by
  refine ⟨hlater.signals.trans h.signals, Nat.le_trans h.actions hlater.actions,
    fun j hj => (hlater.others j hj).trans (h.others j hj), fun a ha => ?_⟩
  rw [hlater.mem a (Nat.lt_of_lt_of_le ha h.actions), h.mem a ha, and_assoc, not_or]

theorem Performed.congr {removed other : Nat → Prop} (h : Performed s removed w v)
    (hiff : ∀ a, removed a ↔ other a) : Performed s other w v :=
  ⟨h.signals, h.actions, h.others, fun a ha => by rw [h.mem a ha, hiff]⟩

theorem Performed.of_sets {removed : Nat → Prop} {sets : Nat → List Nat}
    (hsignals : v.signals.length = w.signals.length) (hactions : w.actions.length ≤ v.actions.length)
    (hsets : ∀ j, v.m_actions j = if j = s then sets j else w.m_actions j)
    (hmem : ∀ a < w.actions.length, a ∈ sets s ↔ a ∈ w.m_actions s ∧ ¬removed a) :
    Performed s removed w v :=
  ⟨hsignals, hactions, fun j hj => (hsets j).trans (if_neg hj),
    fun a ha => (hsets s).trans (if_pos rfl) ▸ hmem a ha⟩

theorem performed_perform (hs : s < w.signals.length) (op : HandlerOp F) :
    Performed s (fun a => op.removes a = true) w (perform s w op) := by
  cases op with
  | connect function =>
      refine .of_sets (List.length_modify ..) (List.length_append ▸ Nat.le_add_right _ _)
        (m_actions_connect hs function) fun a ha => ?_
      rw [List.mem_append, List.mem_singleton, or_iff_left (Nat.ne_of_lt ha)]
      exact (and_iff_left nofun).symm
  | remove other =>
      refine .of_sets length_update (Nat.le_refl _) (m_actions_remove hs) fun a _ => ?_
      rw [List.mem_filter, decide_eq_true_eq, HandlerOp.removes, decide_eq_true_eq, ne_comm]
  | clear =>
      refine .of_sets length_update (Nat.le_refl _) (m_actions_clear hs) fun a _ => ?_
      exact iff_of_false List.not_mem_nil fun hkept => hkept.2 rfl

theorem performed_foldl (hs : s < w.signals.length) (ops : List (HandlerOp F)) :
    Performed s (fun a => ops.any (HandlerOp.removes a) = true) w (ops.foldl (perform s) w) := by
  induction ops generalizing w with
  | nil => simpa using Performed.refl w
  | cons op ops ih =>
      have hfirst := performed_perform hs op
      have hlater := hfirst.trans (ih (hfirst.signals ▸ hs))
      simp only [List.any_cons, Bool.or_eq_true]
      exact hlater

-- Where the loop has got after the handlers in `done`, in terms of where it started.
theorem alive_iff (hsignals : v.signals.length = w.signals.length)
    (hothers : ∀ j, j ≠ s → v.m_actions j = w.m_actions j) :
    v.Alive a ↔ w.HeldElsewhere s a ∨ a ∈ v.m_actions s := by
  constructor
  · rintro ⟨j, hj, hmem⟩
    by_cases heq : j = s
    · exact .inr (heq ▸ hmem)
    · exact .inl ⟨j, hsignals ▸ hj, heq, hothers j heq ▸ hmem⟩
  · rintro (⟨j, -, hne, hmem⟩ | hmem)
    · exact alive_of_mem ((hothers j hne).symm ▸ hmem)
    · exact alive_of_mem hmem

-- The loop of emit() goes over its snapshot as `visited` does, where what keeps an action alive
-- is that another signal has it.
theorem invoke_eq_visited (hs : s < w.signals.length) (hw : ∀ a ∈ order, a ∈ w.m_actions s)
    (hlt : ∀ a ∈ order, a < w.actions.length)
    (hdone : Performed s (fun a => ∃ b ∈ done, Removes effects b a) w v) :
    (v.invoke s effects order).1 = visited (Removes effects) (w.HeldElsewhere s) done order := by
  induction order generalizing v done with
  | nil => rfl
  | cons a rest ih =>
      have ha := hw a List.mem_cons_self
      have hturn : v.Alive a ↔ w.HeldElsewhere s a ∨ ∀ b ∈ done, ¬Removes effects b a := by
        rw [alive_iff hdone.signals hdone.others, hdone.mem a (hlt a List.mem_cons_self),
          and_iff_right ha, not_exists]
        simp only [not_and]
      have hw := fun b hb => hw b (List.mem_cons_of_mem a hb)
      have hlt := fun b hb => hlt b (List.mem_cons_of_mem a hb)
      rw [invoke, visited]
      by_cases halive : v.Alive a
      · rw [if_pos halive, if_pos (hturn.mp halive)]
        refine congrArg (a :: ·) (ih hw hlt ?_)
        have hcalled := hdone.trans (performed_foldl (hdone.signals ▸ hs) (effects a))
        refine hcalled.congr fun c => ?_
        simp only [List.mem_append, List.mem_singleton, or_and_right, exists_or, exists_eq_left]
        rfl
      · rw [if_neg halive, if_neg (hturn.not.mp halive)]
        exact ih hw hlt hdone

theorem Tidy.called_emit (hw : w.Tidy) {sig : Signal} (hs : w.signals[s]? = some sig)
    (hsync : sig.m_io_service = false) (horder : order.Perm (w.m_actions s)) :
    (w.emit s order effects).called = visited (Removes effects) (w.HeldElsewhere s) [] order := by
  rw [emit]
  split
  · rename_i hempty
    obtain rfl : order = [] := List.perm_nil.mp (List.isEmpty_iff.mp hempty ▸ horder)
    rfl
  · rw [hs, Option.any_some, hsync, if_neg Bool.false_ne_true]
    obtain ⟨hlt, -⟩ := List.getElem?_eq_some_iff.mp hs
    refine invoke_eq_visited hlt (fun a ha => horder.mem_iff.mp ha)
      (fun a ha => hw.lt s a (horder.mem_iff.mp ha)) ?_
    exact (Performed.refl w).congr fun a => by simp

-- The handlers that are called were connected at the start, come once and in the order of the
-- set, and are those that no handler before them has removed.
structure EmitsOnce (w : Signals F) (s : Nat) (order : List Nat) (effects : Nat → List (HandlerOp F))
    (called : List Nat) : Prop where
  start : ∀ a ∈ called, a ∈ w.m_actions s
  nodup : called.Nodup
  sublist : called.Sublist order
  turn : TurnsKept (Removes effects) order called

-- A handler that is removed before its turn is not called, and each other one is, exactly if
-- none is removed before its turn that another signal has as well.
theorem emitsOnce_iff {trace : List (SignalEvent F)} (hrun : Run step Always empty trace w) {sig : Signal}
    (hs : w.signals[s]? = some sig) (hsync : sig.m_io_service = false)
    (horder : order.Perm (w.m_actions s)) (effects : Nat → List (HandlerOp F)) :
    w.EmitsOnce s order effects (w.emit s order effects).called ↔
      ∀ first a post, order = first ++ a :: post → w.HeldElsewhere s a →
        Kept (Removes effects) (attended (Removes effects) order) first a := by
  have hw := run_tidy hrun
  have hnodup : order.Nodup := horder.nodup_iff.mpr (hw.nodup s)
  rw [hw.called_emit hs hsync horder, ← visited_turnsKept_iff hnodup]
  have hsublist : (visited (Removes effects) (w.HeldElsewhere s) [] order).Sublist order :=
    visited_sublist [] order
  refine ⟨EmitsOnce.turn, fun hturn => ⟨fun a ha => ?_, hnodup.sublist hsublist, hsublist, hturn⟩⟩
  exact horder.mem_iff.mp (hsublist.subset ha)

-- Two handlers, of which the first to be called removes the other.
def pair : List (SignalEvent Unit) := [.construct false, .connect 0 (), .connect 0 ()]

def dropping (a : Nat) : List (HandlerOp Unit) := if a = 0 then [.connect (), .remove 1] else []

theorem pair_emitsOnce : ∃ w : Signals Unit, Run step Always empty pair w ∧
    w.EmitsOnce 0 [0, 1] dropping (w.emit 0 [0, 1] dropping).called := by
  have hrun : Run step Always (empty : Signals Unit) pair _ := .of_foldlM rfl
  refine ⟨_, hrun, (emitsOnce_iff hrun rfl rfl (.refl _) dropping).mpr fun _ a _ _ hheld => ?_⟩
  obtain ⟨other, hlt, hne, -⟩ := hheld
  exact absurd (Nat.lt_one_iff.mp hlt) hne

-- With a copy of the signal, both are called.
theorem copy_not_emitsOnce : ∃ w : Signals Unit, Run step Always empty (pair ++ [.copy_construct 0]) w ∧
    (w.emit 0 [0, 1] dropping).called = [0, 1] ∧
      ¬w.EmitsOnce 0 [0, 1] dropping (w.emit 0 [0, 1] dropping).called := by
  refine ⟨_, .of_foldlM rfl, by decide, fun h => ?_⟩
  have hkept := (h.turn [0] 1 [] rfl).mp (by decide)
  exact absurd (hkept 0 List.mem_cons_self (by decide)) (by decide)

end Signals

end RoboCrisp.Util
