import RoboCrisp.Util.Signal.Emission

namespace RoboCrisp.Util

open RoboCrisp.Transition Snapshot

namespace Signals

variable {F : Type} {w w' u : Signals F} {a : Nat} {trace more : List (SignalEvent F)}

-- The signal that has the connection does not get the action from another one that still has it.
def KeepsOff (a : Nat) (w : Signals F) : SignalEvent F → Prop
  | .copy_assign s sig => s = w.owner a → a ∉ w.m_actions sig
  | _ => True

-- Emitting the signal that has the connection calls the handler in no order of its set, whatever
-- the handlers do.
def Silent (a : Nat) (w : Signals F) : Prop :=
  ∀ (order : List Nat) (effects : Nat → List (HandlerOp F)),
    order.Perm (w.m_actions (w.owner a)) → a ∉ (w.emit (w.owner a) order effects).called

-- The action is connected to no signal that has its connection.
structure Disconnected (a : Nat) (w : Signals F) : Prop where
  tidy : w.Tidy
  connected : a < w.actions.length
  off : a ∉ w.m_actions (w.owner a)

theorem invoke_sublist (w : Signals F) (s : Nat) (order : List Nat) (effects : Nat → List (HandlerOp F)) :
    (w.invoke s effects order).1.Sublist order := by
  induction order generalizing w with
  | nil => exact .slnil
  | cons b rest ih =>
      rw [invoke]
      split
      · exact (ih _).cons_cons b
      · exact (ih w).cons b

theorem called_sublist (w : Signals F) (s : Nat) (order : List Nat) (effects : Nat → List (HandlerOp F)) :
    (w.emit s order effects).called.Sublist order := by
  rw [emit]
  split
  · exact List.nil_sublist _
  · split
    · exact List.nil_sublist _
    · exact w.invoke_sublist s order effects

theorem Disconnected.silent (h : Disconnected a w) : Silent a w :=
  fun _ _ horder hcall => h.off (horder.mem_iff.mp ((called_sublist _ _ _ _).subset hcall))

theorem Disconnected.update (h : Disconnected a w) {s : Nat} {f : List Nat → List Nat}
    (hf : ∀ m_actions, (f m_actions).Sublist m_actions) : Disconnected a (w.update s f) :=
  ⟨h.tidy.update hf, h.connected, fun hmem => h.off ((m_actions_update_sublist hf _).subset hmem)⟩

theorem Disconnected.copy_construct (h : Disconnected a w) {sig : Signal}
    (htidy : (w.copy_construct sig).Tidy) : Disconnected a (w.copy_construct sig) := by
  have howner : (w.copy_construct sig).owner = w.owner := rfl
  refine ⟨htidy, h.connected, ?_⟩
  rw [howner, m_actions_copy_construct, if_neg (Nat.ne_of_lt (h.tidy.owner_lt a h.connected))]
  exact h.off

-- What has been removed from the set before is not moved with it.
theorem Disconnected.move_construct (h : Disconnected a w) {s : Nat} {sig : Signal}
    (hsig : w.signals[s]? = some sig) : Disconnected a (w.move_construct s sig) := by
  obtain ⟨hs, -⟩ := List.getElem?_eq_some_iff.mp hsig
  have howner : (w.move_construct s sig).owner a = w.owner a := by
    refine if_neg fun ⟨howner, hmem⟩ => h.off ?_
    rwa [howner, m_actions_of_getElem? hsig]
  refine ⟨h.tidy.move_construct hsig, h.connected, ?_⟩
  rw [howner, m_actions_move_construct hs, if_neg (Nat.ne_of_lt (h.tidy.owner_lt a h.connected))]
  split
  · exact List.not_mem_nil
  · exact h.off

theorem Disconnected.connect (h : Disconnected a w) {s : Nat} (hs : s < w.signals.length)
    (function : F) : Disconnected a (w.connect s function) := by
  have hne := Nat.ne_of_lt h.connected
  have howner : (w.connect s function).owner a = w.owner a := if_neg hne
  refine ⟨h.tidy.connect hs function, ?_, ?_⟩
  · exact Nat.lt_of_lt_of_le h.connected (List.length_append ▸ Nat.le_add_right _ _)
  · rw [howner, m_actions_connect hs]
    split
    · rw [List.mem_append, List.mem_singleton, or_iff_left hne]
      exact h.off
    · exact h.off

-- The signal can get the action back by an assignment only.
theorem Disconnected.copy_assign (h : Disconnected a w) {s j : Nat} {sig : Signal}
    (hs : s < w.signals.length) (hsig : w.signals[j]? = some sig)
    (hallowed : KeepsOff a w (.copy_assign s j)) : Disconnected a (w.copy_assign s sig) := by
  have howner : (w.copy_assign s sig).owner = w.owner := rfl
  refine ⟨h.tidy.copy_assign hs hsig, h.connected, ?_⟩
  rw [howner, m_actions_copy_assign hs, ← m_actions_of_getElem? hsig]
  split
  · rename_i heq
    exact hallowed heq.symm
  · exact h.off

theorem Disconnected.step {e : SignalEvent F} (h : Disconnected a w) (hallowed : KeepsOff a w e)
    (hstep : w.step e = some w') : Disconnected a w' := by
  have htidy := h.tidy.step hstep
  cases step_steps hstep with
  | construct | copy_construct => exact h.copy_construct htidy
  | move_construct hsig => exact h.move_construct hsig
  | copy_assign hs hsig => exact h.copy_assign hs hsig hallowed
  | set_io_service =>
      refine ⟨htidy, h.connected, ?_⟩
      rw [m_actions_set_io_service]
      exact h.off
  | connect hs => exact h.connect hs _
  | remove | disconnect => exact h.update fun _ => List.filter_sublist
  | clear => exact h.update List.nil_sublist

-- What is left in the set is called as soon as the signal is emitted and its handlers do nothing.
theorem Tidy.mem_called (hw : w.Tidy) {s : Nat} {sig : Signal} (hs : w.signals[s]? = some sig)
    (hsync : sig.m_io_service = false) (hmem : a ∈ w.m_actions s) :
    a ∈ (w.emit s (w.m_actions s) fun _ => []).called := by
  obtain ⟨first, post, horder⟩ := List.append_of_mem hmem
  rw [hw.called_emit hs hsync (.refl _), mem_visited (hw.nodup s) horder]
  exact .inr fun b _ _ => nofun

theorem Tidy.not_silent (hw : w.Tidy) (hlt : a < w.actions.length)
    (hmem : a ∈ w.m_actions (w.owner a)) : ¬Silent a (w.set_io_service (w.owner a) false) := by
  intro hsilent
  have howner := hw.owner_lt a hlt
  have hstep : w.step (.set_io_service (w.owner a) false) =
      some (w.set_io_service (w.owner a) false) := if_pos howner
  have hsig : (w.set_io_service (w.owner a) false).signals[w.owner a]? =
      some { w.signals[w.owner a] with m_io_service := false } := by
    rw [Signals.set_io_service, List.getElem?_modify_eq, List.getElem?_eq_getElem howner]
    rfl
  have hkept : a ∈ (w.set_io_service (w.owner a) false).m_actions (w.owner a) := by
    rwa [m_actions_set_io_service]
  exact hsilent _ _ (.refl _) ((hw.step hstep).mem_called hsig rfl hkept)

theorem Tidy.disconnected_remove (hw : w.Tidy) {action : SignalAction F}
    (haction : w.actions[a]? = some action)
    (hgone : action.m_signal = w.owner a ∨ a ∉ w.m_actions (w.owner a)) :
    Disconnected a (w.remove action.m_signal a) := by
  obtain ⟨hlt, -⟩ := List.getElem?_eq_some_iff.mp haction
  refine ⟨hw.remove _ _, hlt, fun hmem => ?_⟩
  rcases hgone with hsignal | hgone
  · have howner : (w.remove action.m_signal a).owner = w.owner := rfl
    rw [howner, hsignal, m_actions_remove (hw.owner_lt a hlt), if_pos rfl, List.mem_filter] at hmem
    exact absurd rfl (of_decide_eq_true hmem.2)
  · exact hgone ((m_actions_update_sublist (fun _ => List.filter_sublist) _).subset hmem)

-- disconnect() silences the action for the signal that has its connection, and for good, exactly
-- if the action was created on that signal or is not in its set.
theorem disconnect_silent_iff (hrun : Run step Always empty trace w)
    (hdisconnect : w.step (.disconnect a) = some w') :
    (∀ {more u}, Run step (KeepsOff a) w' more u → Silent a u) ↔
      (∃ action, w.actions[a]? = some action ∧ action.m_signal = w.owner a) ∨
        a ∉ w.m_actions (w.owner a) := by
  have hw := run_tidy hrun
  have hw' := hw.step hdisconnect
  obtain ⟨-, hdisconnect⟩ := Option.ite_none_right_eq_some.mp hdisconnect
  obtain ⟨action, haction, rfl⟩ := Option.map_eq_some_iff.mp hdisconnect
  obtain ⟨hlt, -⟩ := List.getElem?_eq_some_iff.mp haction
  constructor
  · intro hsilent
    by_contra hneither
    obtain ⟨hother, hmem⟩ := not_or.mp hneither
    have hne : w.owner a ≠ action.m_signal := fun heq => hother ⟨action, haction, heq.symm⟩
    have hkept : a ∈ (w.remove action.m_signal a).m_actions (w.owner a) :=
      (m_actions_update_ne hne).symm ▸ Classical.not_not.mp hmem
    have hsync : (w.remove action.m_signal a).step (.set_io_service (w.owner a) false) = some _ :=
      if_pos (hw'.owner_lt a hlt)
    have hmore : Run step (KeepsOff a) _ ([] ++ [.set_io_service (w.owner a) false]) _ :=
      .next .start trivial hsync
    exact hw'.not_silent hlt hkept (hsilent hmore)
  · intro hgone more u hmore
    have hstart := hw.disconnected_remove haction (hgone.imp_left ?_)
    · exact (hmore.invariant hstart fun hinv hallowed hstep => hinv.step hallowed hstep).silent
    · rintro ⟨other, hother, hsignal⟩
      exact Option.some.inj (haction.symm.trans hother) ▸ hsignal

def transferred (e : SignalEvent Unit) : List (SignalEvent Unit) := [.construct false, .connect 0 (), e]

-- A copy is no obstacle.
theorem copy_silent : ∃ w w' : Signals Unit, Run step Always empty (transferred (.copy_construct 0)) w ∧
    w.step (.disconnect 0) = some w' ∧ ∀ {more u}, Run step (KeepsOff 0) w' more u → Silent 0 u := by
  have hrun : Run step Always (empty : Signals Unit) (transferred (.copy_construct 0)) _ := .of_foldlM rfl
  exact ⟨_, _, hrun, rfl, (disconnect_silent_iff hrun rfl).mpr (.inl ⟨_, rfl, rfl⟩)⟩

-- The action goes on being called by the signal that it has been moved into.
theorem move_not_silent : ∃ w w' : Signals Unit, Run step Always empty (transferred (.move_construct 0)) w ∧
    w.step (.disconnect 0) = some w' ∧ w'.owner 0 = 1 ∧
      (w'.emit 1 [0] fun _ => []).called = [0] ∧ ¬Silent 0 w' := by
  refine ⟨_, _, .of_foldlM rfl, rfl, rfl, by decide, fun hsilent => ?_⟩
  exact hsilent [0] (fun _ => []) (.refl _) (by decide)

def Unmoved : SignalEvent F → Prop
  | .move_construct _ => False
  | _ => True

-- Each action refers to the signal that has its connection.
def Refers (w : Signals F) : Prop :=
  ∀ a action, w.actions[a]? = some action → action.m_signal = w.owner a

theorem Refers.connect (h : w.Refers) (s : Nat) (function : F) : (w.connect s function).Refers := by
  intro a action haction
  have howner : (w.connect s function).owner a = if a = w.actions.length then s else w.owner a := rfl
  have hactions : (w.connect s function).actions = w.actions ++ [⟨s, function⟩] := rfl
  rw [hactions] at haction
  rw [howner]
  split
  · rename_i heq
    rw [heq, List.getElem?_concat_length] at haction
    exact Option.some.inj haction ▸ rfl
  · rename_i hne
    have hlt : a < w.actions.length := by
      have hle := (List.getElem?_eq_some_iff.mp haction).1
      rw [List.length_append, List.length_singleton] at hle
      omega
    exact h a action (List.getElem?_append_left hlt ▸ haction)

theorem Refers.step {e : SignalEvent F} (h : w.Refers) (hallowed : Unmoved e)
    (hstep : w.step e = some w') : w'.Refers := by
  cases step_steps hstep with
  | move_construct => exact hallowed.elim
  | connect => exact h.connect _ _
  | _ => exact h

-- As long as no signal is moved from, disconnect() does what it is for.
theorem run_refers (hrun : Run step (fun _ => Unmoved) empty trace w) : w.Refers :=
  hrun.invariant (fun _ _ haction => absurd haction nofun) fun hinv hallowed hstep =>
    hinv.step hallowed hstep

end Signals

end RoboCrisp.Util
