import RoboCrisp.Transition.Run
import RoboCrisp.Util.Snapshot

namespace RoboCrisp.Util

open RoboCrisp.Transition

-- Signals and actions are given by numbers that stand for their addresses.
structure Signal where
  m_actions : List Nat
  m_io_service : Bool
deriving DecidableEq

structure SignalAction (F : Type) where
  m_signal : Nat
  m_function : F

-- All the signals that there are, with the actions that have ever been connected. An action lives
-- while a signal has it. `owner` is the signal that the connection of an action is with: the one
-- that it was made on, or the last one that it was moved into from there.
structure Signals (F : Type) where
  signals : List Signal
  actions : List (SignalAction F)
  owner : Nat → Nat

inductive SignalEvent (F : Type)
  | construct (m_io_service : Bool)
  | copy_construct (sig : Nat)
  | move_construct (sig : Nat)
  | copy_assign (s sig : Nat)
  | set_io_service (s : Nat) (m_io_service : Bool)
  | connect (s : Nat) (function : F)
  | remove (s a : Nat)
  | clear (s : Nat)
  | disconnect (a : Nat)

-- What a handler may do to the signal that calls it.
inductive HandlerOp (F : Type)
  | connect (function : F)
  | remove (a : Nat)
  | clear

namespace Signals

variable {F : Type}

def empty : Signals F := ⟨[], [], fun _ => 0⟩

def m_actions (w : Signals F) (s : Nat) : List Nat :=
  match w.signals[s]? with
  | some signal => signal.m_actions
  | none => []

-- A weak_ptr to the action has not expired.
def Alive (w : Signals F) (a : Nat) : Prop := ∃ s < w.signals.length, a ∈ w.m_actions s

instance (w : Signals F) (a : Nat) : Decidable (w.Alive a) :=
  inferInstanceAs (Decidable (∃ s < _, _))

def update (w : Signals F) (s : Nat) (f : List Nat → List Nat) : Signals F :=
  { w with signals := w.signals.modify s fun signal => { signal with m_actions := f signal.m_actions } }

def connect (w : Signals F) (s : Nat) (function : F) : Signals F :=
  { w.update s fun m_actions => m_actions ++ [w.actions.length] with
    actions := w.actions ++ [⟨s, function⟩]
    owner := fun a => if a = w.actions.length then s else w.owner a }

-- An action that has expired is in no signal.
def remove (w : Signals F) (s a : Nat) : Signals F :=
  w.update s fun m_actions => m_actions.filter fun other => other ≠ a

def clear (w : Signals F) (s : Nat) : Signals F := w.update s fun _ => []

def construct (w : Signals F) (m_io_service : Bool) : Signals F :=
  { w with signals := w.signals ++ [⟨[], m_io_service⟩] }

def copy_construct (w : Signals F) (sig : Signal) : Signals F :=
  { w with signals := w.signals ++ [sig] }

-- The set that has been moved from is empty.
def move_construct (w : Signals F) (s : Nat) (sig : Signal) : Signals F :=
  { w.clear s with
    signals := (w.clear s).signals ++ [sig]
    owner := fun a => if w.owner a = s ∧ a ∈ sig.m_actions then w.signals.length else w.owner a }

def copy_assign (w : Signals F) (s : Nat) (sig : Signal) : Signals F :=
  { w with signals := w.signals.set s sig }

-- set_io_service() and clear_io_service()
def set_io_service (w : Signals F) (s : Nat) (m_io_service : Bool) : Signals F :=
  { w with signals := w.signals.modify s fun signal => { signal with m_io_service } }

def step (w : Signals F) : SignalEvent F → Option (Signals F)
  | .construct m_io_service => some (w.construct m_io_service)
  | .copy_construct sig => w.signals[sig]?.map w.copy_construct
  | .move_construct sig => w.signals[sig]?.map (w.move_construct sig)
  | .copy_assign s sig =>
      if s < w.signals.length then w.signals[sig]?.map (w.copy_assign s) else none
  | .set_io_service s m_io_service =>
      if s < w.signals.length then some (w.set_io_service s m_io_service) else none
  | .connect s function => if s < w.signals.length then some (w.connect s function) else none
  | .remove s a => if s < w.signals.length then some (w.remove s a) else none
  | .clear s => if s < w.signals.length then some (w.clear s) else none
  | .disconnect a =>
      if w.Alive a then w.actions[a]?.map fun action => w.remove action.m_signal a else none

def perform (s : Nat) (w : Signals F) : HandlerOp F → Signals F
  | .connect function => w.connect s function
  | .remove a => w.remove s a
  | .clear => w.clear s

-- The second loop of emit(), over what the weak pointers refer to. `effects` gives what each
-- handler does when it is called, whatever that depends on.
def invoke (s : Nat) (effects : Nat → List (HandlerOp F)) :
    Signals F → List Nat → List Nat × Signals F
  | w, [] => ([], w)
  | w, a :: rest =>
      if w.Alive a then
        let (called, later) := invoke s effects ((effects a).foldl (perform s) w) rest
        (a :: called, later)
      else invoke s effects w rest

-- The handlers that emit() has called, and those that it has posted.
structure Emission (F : Type) where
  called : List Nat
  posted : List Nat
  signals : Signals F

-- `order` is the order in which the set is iterated over.
def emit (w : Signals F) (s : Nat) (order : List Nat) (effects : Nat → List (HandlerOp F)) :
    Emission F :=
  if (w.m_actions s).isEmpty then ⟨[], [], w⟩
  else if w.signals[s]?.any fun signal => signal.m_io_service then
    ⟨[], order.filter fun a => w.Alive a, w⟩
  else
    let (called, signals) := w.invoke s effects order
    ⟨called, [], signals⟩

variable {w w' : Signals F} {s a : Nat} {sig : Signal}

theorem length_update {f : List Nat → List Nat} :
    (w.update s f).signals.length = w.signals.length := by
  rw [update, List.length_modify]

theorem m_actions_of_getElem? (h : w.signals[s]? = some sig) : w.m_actions s = sig.m_actions := by
  rw [m_actions, h]

theorem m_actions_of_le (h : w.signals.length ≤ s) : w.m_actions s = [] := by
  rw [m_actions, List.getElem?_eq_none h]

theorem m_actions_congr {j k : Nat} (h : w'.signals[j]? = w.signals[k]?) :
    w'.m_actions j = w.m_actions k := by
  rw [m_actions, m_actions, h]

theorem lt_of_mem_m_actions (h : a ∈ w.m_actions s) : s < w.signals.length := by
  by_contra hle
  rw [m_actions_of_le (Nat.le_of_not_lt hle)] at h
  exact absurd h List.not_mem_nil

theorem alive_of_mem (h : a ∈ w.m_actions s) : w.Alive a := ⟨s, lt_of_mem_m_actions h, h⟩

theorem m_actions_update_ne {f : List Nat → List Nat} {j : Nat} (hne : j ≠ s) :
    (w.update s f).m_actions j = w.m_actions j := by
  refine m_actions_congr ?_
  rw [update, List.getElem?_modify_ne _ _ (Ne.symm hne)]

theorem m_actions_update {f : List Nat → List Nat} (hs : s < w.signals.length) (j : Nat) :
    (w.update s f).m_actions j = if j = s then f (w.m_actions j) else w.m_actions j := by
  have hsig := List.getElem?_eq_getElem hs
  split
  · rename_i heq
    rw [heq, m_actions_of_getElem? hsig]
    have hnew : (w.update s f).signals[s]? =
        some { w.signals[s] with m_actions := f w.signals[s].m_actions } := by
      rw [update, List.getElem?_modify_eq, hsig]
      rfl
    exact m_actions_of_getElem? hnew
  · rename_i hne
    exact m_actions_update_ne hne

-- The sets that a new signal leaves.
theorem m_actions_concat (hsignals : w'.signals = w.signals ++ [sig]) (j : Nat) :
    w'.m_actions j = if j = w.signals.length then sig.m_actions else w.m_actions j := by
  split
  · rename_i heq
    refine m_actions_of_getElem? ?_
    rw [hsignals, heq, List.getElem?_concat_length]
  · rename_i hne
    rcases Nat.lt_or_gt_of_ne hne with hlt | hgt
    · refine m_actions_congr ?_
      rw [hsignals, List.getElem?_append_left hlt]
    · rw [m_actions_of_le (Nat.le_of_lt hgt), m_actions_of_le]
      rw [hsignals, List.length_append]
      exact hgt

theorem m_actions_remove (hs : s < w.signals.length) (j : Nat) : (w.remove s a).m_actions j =
    if j = s then (w.m_actions j).filter fun other => other ≠ a else w.m_actions j :=
  m_actions_update hs j

theorem m_actions_clear (hs : s < w.signals.length) (j : Nat) :
    (w.clear s).m_actions j = if j = s then [] else w.m_actions j := m_actions_update hs j

theorem m_actions_connect (hs : s < w.signals.length) (function : F) (j : Nat) :
    (w.connect s function).m_actions j =
      if j = s then w.m_actions j ++ [w.actions.length] else w.m_actions j := by
  have hupdate : (w.connect s function).m_actions j =
      (w.update s fun m_actions => m_actions ++ [w.actions.length]).m_actions j := m_actions_congr rfl
  rw [hupdate, m_actions_update hs]

theorem m_actions_copy_construct (j : Nat) : (w.copy_construct sig).m_actions j =
    if j = w.signals.length then sig.m_actions else w.m_actions j := m_actions_concat rfl j

theorem m_actions_move_construct (hs : s < w.signals.length) (j : Nat) :
    (w.move_construct s sig).m_actions j =
      if j = w.signals.length then sig.m_actions else if j = s then [] else w.m_actions j := by
  have hconcat : (w.move_construct s sig).signals = (w.clear s).signals ++ [sig] := rfl
  rw [m_actions_concat hconcat, clear, length_update, ← clear, m_actions_clear hs]

theorem m_actions_copy_assign (hs : s < w.signals.length) (j : Nat) :
    (w.copy_assign s sig).m_actions j = if j = s then sig.m_actions else w.m_actions j := by
  split
  · rename_i heq
    refine m_actions_of_getElem? ?_
    rw [copy_assign, heq, List.getElem?_set_self hs]
  · rename_i hne
    refine m_actions_congr ?_
    rw [copy_assign, List.getElem?_set_ne (Ne.symm hne)]

theorem m_actions_set_io_service (m_io_service : Bool) (j : Nat) :
    (w.set_io_service s m_io_service).m_actions j = w.m_actions j := by
  rw [m_actions, m_actions, set_io_service, List.getElem?_modify]
  cases w.signals[j]? with
  | none => rfl
  | some signal =>
      simp only [Option.map_eq_map, Option.map_some]
      split <;> rfl

-- What each event does, with what has let it happen.
inductive Steps (w : Signals F) : SignalEvent F → Signals F → Prop
  | construct {m_io_service : Bool} : Steps w (.construct m_io_service) (w.construct m_io_service)
  | copy_construct {j : Nat} {sig : Signal} (hsig : w.signals[j]? = some sig) :
      Steps w (.copy_construct j) (w.copy_construct sig)
  | move_construct {j : Nat} {sig : Signal} (hsig : w.signals[j]? = some sig) :
      Steps w (.move_construct j) (w.move_construct j sig)
  | copy_assign {s j : Nat} {sig : Signal} (hs : s < w.signals.length)
      (hsig : w.signals[j]? = some sig) : Steps w (.copy_assign s j) (w.copy_assign s sig)
  | set_io_service {s : Nat} {m_io_service : Bool} (hs : s < w.signals.length) :
      Steps w (.set_io_service s m_io_service) (w.set_io_service s m_io_service)
  | connect {s : Nat} {function : F} (hs : s < w.signals.length) :
      Steps w (.connect s function) (w.connect s function)
  | remove {s a : Nat} : Steps w (.remove s a) (w.remove s a)
  | clear {s : Nat} : Steps w (.clear s) (w.clear s)
  | disconnect {a : Nat} {action : SignalAction F} (haction : w.actions[a]? = some action) :
      Steps w (.disconnect a) (w.remove action.m_signal a)

theorem step_steps {e : SignalEvent F} (hstep : w.step e = some w') : w.Steps e w' := by
  cases e with
  | construct => exact Option.some.inj hstep ▸ .construct
  | copy_construct sig =>
      obtain ⟨signal, hsig, rfl⟩ := Option.map_eq_some_iff.mp hstep
      exact .copy_construct hsig
  | move_construct sig =>
      obtain ⟨signal, hsig, rfl⟩ := Option.map_eq_some_iff.mp hstep
      exact .move_construct hsig
  | copy_assign s sig =>
      obtain ⟨hs, hstep⟩ := Option.ite_none_right_eq_some.mp hstep
      obtain ⟨signal, hsig, rfl⟩ := Option.map_eq_some_iff.mp hstep
      exact .copy_assign hs hsig
  | set_io_service s =>
      obtain ⟨hs, hstep⟩ := Option.ite_none_right_eq_some.mp hstep
      exact Option.some.inj hstep ▸ .set_io_service hs
  | connect s =>
      obtain ⟨hs, hstep⟩ := Option.ite_none_right_eq_some.mp hstep
      exact Option.some.inj hstep ▸ .connect hs
  | remove s a =>
      obtain ⟨-, hstep⟩ := Option.ite_none_right_eq_some.mp hstep
      exact Option.some.inj hstep ▸ .remove
  | clear s =>
      obtain ⟨-, hstep⟩ := Option.ite_none_right_eq_some.mp hstep
      exact Option.some.inj hstep ▸ .clear
  | disconnect a =>
      obtain ⟨-, hstep⟩ := Option.ite_none_right_eq_some.mp hstep
      obtain ⟨action, haction, rfl⟩ := Option.map_eq_some_iff.mp hstep
      exact .disconnect haction

-- Each action is in a set at most once, and has been connected. The signals to which the
-- connections belong are there.
structure Tidy (w : Signals F) : Prop where
  nodup : ∀ s, (w.m_actions s).Nodup
  lt : ∀ s, ∀ a ∈ w.m_actions s, a < w.actions.length
  owner_lt : ∀ a < w.actions.length, w.owner a < w.signals.length

theorem m_actions_update_sublist {f : List Nat → List Nat}
    (hf : ∀ m_actions, (f m_actions).Sublist m_actions) (j : Nat) :
    ((w.update s f).m_actions j).Sublist (w.m_actions j) := by
  by_cases hs : s < w.signals.length
  · rw [m_actions_update hs]
    split
    · exact hf _
    · exact .refl _
  · have hsame : (w.update s f).signals = w.signals := List.modify_eq_self (Nat.le_of_not_lt hs)
    rw [m_actions_congr (congrArg (·[j]?) hsame)]

theorem Tidy.update (h : w.Tidy) {f : List Nat → List Nat}
    (hf : ∀ m_actions, (f m_actions).Sublist m_actions) : (w.update s f).Tidy := by
  refine ⟨fun j => ?_, fun j a hmem => ?_, fun a ha => ?_⟩
  · exact (h.nodup j).sublist (m_actions_update_sublist hf j)
  · exact h.lt j a ((m_actions_update_sublist hf j).subset hmem)
  · rw [length_update]
    exact h.owner_lt a ha

theorem Tidy.remove (h : w.Tidy) (s a : Nat) : (w.remove s a).Tidy :=
  h.update fun _ => List.filter_sublist

theorem Tidy.clear (h : w.Tidy) (s : Nat) : (w.clear s).Tidy := h.update List.nil_sublist

theorem Tidy.connect (h : w.Tidy) (hs : s < w.signals.length) (function : F) :
    (w.connect s function).Tidy := by
  have hlength : (w.connect s function).actions.length = w.actions.length + 1 := List.length_append
  refine ⟨fun j => ?_, fun j a hmem => ?_, fun a ha => ?_⟩
  · rw [m_actions_connect hs]
    split
    · rw [← List.concat_eq_append]
      exact (h.nodup j).concat fun hmem => Nat.lt_irrefl _ (h.lt j _ hmem)
    · exact h.nodup j
  · rw [hlength]
    rw [m_actions_connect hs] at hmem
    split at hmem
    · rcases List.mem_append.mp hmem with hmem | hmem
      · exact Nat.lt_succ_of_lt (h.lt j a hmem)
      · exact List.mem_singleton.mp hmem ▸ Nat.lt_succ_self _
    · exact Nat.lt_succ_of_lt (h.lt j a hmem)
  · have hsignals : (w.connect s function).signals.length = w.signals.length := List.length_modify ..
    rw [hlength] at ha
    rw [hsignals]
    simp only [Signals.connect]
    split
    · exact hs
    · rename_i hne
      exact h.owner_lt a (Nat.lt_of_le_of_ne (Nat.le_of_lt_succ ha) hne)

-- Where each set is one that there was before, or empty, all is as tidy as it was.
theorem Tidy.of_sets (h : w.Tidy) (hactions : w'.actions = w.actions)
    (hsets : ∀ j, w'.m_actions j = [] ∨ ∃ k, w'.m_actions j = w.m_actions k)
    (howner : ∀ a < w.actions.length, w'.owner a < w'.signals.length) : w'.Tidy := by
  refine ⟨fun j => ?_, fun j a hmem => ?_, fun a ha => howner a (hactions ▸ ha)⟩
  · rcases hsets j with hnil | ⟨k, hk⟩
    · exact hnil ▸ .nil
    · exact hk ▸ h.nodup k
  · rcases hsets j with hnil | ⟨k, hk⟩
    · rw [hnil] at hmem
      exact absurd hmem List.not_mem_nil
    · rw [hactions]
      exact h.lt k a (hk ▸ hmem)

theorem Tidy.copy_construct (h : w.Tidy)
    (hsig : sig.m_actions = [] ∨ ∃ k, sig.m_actions = w.m_actions k) : (w.copy_construct sig).Tidy := by
  refine h.of_sets rfl (fun j => ?_) fun a ha => ?_
  · rw [m_actions_copy_construct]
    split
    · exact hsig
    · exact .inr ⟨j, rfl⟩
  · rw [Signals.copy_construct, List.length_append]
    exact Nat.lt_succ_of_lt (h.owner_lt a ha)

theorem Tidy.move_construct (h : w.Tidy) (hsig : w.signals[s]? = some sig) :
    (w.move_construct s sig).Tidy := by
  obtain ⟨hs, -⟩ := List.getElem?_eq_some_iff.mp hsig
  have hlength : (w.move_construct s sig).signals.length = w.signals.length + 1 := by
    rw [Signals.move_construct, List.length_append, Signals.clear, length_update]
    rfl
  refine h.of_sets rfl (fun j => ?_) fun a ha => ?_
  · rw [m_actions_move_construct hs]
    split
    · exact .inr ⟨s, (m_actions_of_getElem? hsig).symm⟩
    · split
      · exact .inl rfl
      · exact .inr ⟨j, rfl⟩
  · rw [hlength]
    simp only [Signals.move_construct]
    split
    · exact Nat.lt_succ_self _
    · exact Nat.lt_succ_of_lt (h.owner_lt a ha)

theorem Tidy.copy_assign (h : w.Tidy) {j : Nat} (hs : s < w.signals.length)
    (hsig : w.signals[j]? = some sig) : (w.copy_assign s sig).Tidy := by
  refine h.of_sets rfl (fun k => .inr ?_) fun a ha => ?_
  · rw [m_actions_copy_assign hs, ← m_actions_of_getElem? hsig]
    split
    · exact ⟨j, rfl⟩
    · exact ⟨k, rfl⟩
  · rw [Signals.copy_assign, List.length_set]
    exact h.owner_lt a ha

theorem Tidy.set_io_service (h : w.Tidy) (s : Nat) (m_io_service : Bool) :
    (w.set_io_service s m_io_service).Tidy := by
  refine h.of_sets rfl (fun j => .inr ⟨j, m_actions_set_io_service _ j⟩) fun a ha => ?_
  rw [Signals.set_io_service, List.length_modify]
  exact h.owner_lt a ha

theorem Tidy.step {e : SignalEvent F} (h : w.Tidy) (hstep : w.step e = some w') : w'.Tidy := by
  cases step_steps hstep with
  | construct => exact h.copy_construct (.inl rfl)
  | copy_construct hsig => exact h.copy_construct (.inr ⟨_, (m_actions_of_getElem? hsig).symm⟩)
  | move_construct hsig => exact h.move_construct hsig
  | copy_assign hs hsig => exact h.copy_assign hs hsig
  | set_io_service => exact h.set_io_service _ _
  | connect hs => exact h.connect hs _
  | remove | disconnect => exact h.remove _ _
  | clear => exact h.clear _

theorem empty_tidy : (empty : Signals F).Tidy := by
  refine ⟨fun s => ?_, fun s a hmem => ?_, fun a ha => absurd ha (Nat.not_lt_zero a)⟩
  · rw [m_actions_of_le (Nat.zero_le s)]
    exact .nil
  · rw [m_actions_of_le (Nat.zero_le s)] at hmem
    exact absurd hmem List.not_mem_nil

theorem run_tidy {trace : List (SignalEvent F)} (hrun : Run step Always empty trace w) : w.Tidy :=
  hrun.invariant empty_tidy fun hinv _ hstep => hinv.step hstep

end Signals

end RoboCrisp.Util
