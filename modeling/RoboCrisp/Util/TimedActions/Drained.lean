import Mathlib.Algebra.Order.BigOperators.Group.List
import Mathlib.Algebra.Order.Group.Nat
import RoboCrisp.Transition.Progress
import RoboCrisp.Util.TimedActions.Calls

namespace RoboCrisp.Util

open RoboCrisp.Transition

def ActionHandler.removed : ActionHandler → Option Nat
  | .expiry .. => none
  | .removal id => some id

namespace TimedActions

variable {F : Type} {s s' : TimedActions F} {i id x : Nat} {action : TimedAction F} {e : ActionEvent F}
  {h : ActionHandler}

-- The function is back at some time after the expiry, if its timer hasn't been set again.
def Punctual (s : TimedActions F) : ActionEvent F → Prop
  | .finish i => ∀ action ∈ s.running[i]?.bind s.m_actions, action.waiting = false → action.expires_at ≠ s.now
  | _ => True

-- What is removed has been inserted before.
def Inserted (s : TimedActions F) (id : Nat) : Prop := ∀ action ∈ s.m_actions id, action.inserted = true

def NotMissed (s : TimedActions F) : ActionEvent F → Prop
  | .remove id => s.Inserted id
  | .handler i => ∀ id ∈ s.posted[i]?.bind ActionHandler.removed, s.Inserted id
  | _ => True

structure Timely (s : TimedActions F) (e : ActionEvent F) : Prop where
  careful : s.Careful e
  quiet : s.Quiet e
  punctual : s.Punctual e
  not_missed : s.NotMissed e

-- Something is still to come for an action that is kept.
def Coming (s : TimedActions F) (id : Nat) : Prop :=
  s.waits id = 1 ∨ .expiry id true ∈ s.posted ∨ id ∈ s.running ∨ .removal id ∈ s.posted

structure Tracked (s : TimedActions F) : Prop where
  coming : ∀ id, s.Owns id → s.Coming id
  elapsed : ∀ id action, s.m_actions id = some action → action.waiting = false →
    action.expires_at ≤ s.now ∨ .removal id ∈ s.posted

-- A step that touches one action leaves the others to come.
theorem Tracked.touch (ht : s.Tracked) (id : Nat)
    (hothers : ∀ x, x ≠ id → s'.m_actions x = s.m_actions x)
    (hposted : ∀ x, x ≠ id → (.expiry x true ∈ s.posted → .expiry x true ∈ s'.posted) ∧
      (.removal x ∈ s.posted → .removal x ∈ s'.posted))
    (hrunning : ∀ x, x ≠ id → x ∈ s.running → x ∈ s'.running) (hnow : s'.now = s.now)
    (hself : s'.Owns id → s'.Coming id)
    (helapsed : ∀ action, s'.m_actions id = some action → action.waiting = false →
      action.expires_at ≤ s'.now ∨ .removal id ∈ s'.posted) : s'.Tracked where
  coming := by
    intro x hx
    by_cases hid : x = id
    · subst hid
      exact hself hx
    · have howns : s.Owns x := by
        obtain ⟨action, haction⟩ := hx
        exact ⟨action, (hothers x hid).symm.trans haction⟩
      have hwaits : s'.waits x = s.waits x := by rw [waits, waits, hothers x hid]
      obtain ⟨hexpiry, hremoval⟩ := hposted x hid
      rcases ht.coming x howns with hw | hq | hr | hm
      · exact .inl (hwaits.trans hw)
      · exact .inr (.inl (hexpiry hq))
      · exact .inr (.inr (.inl (hrunning x hid hr)))
      · exact .inr (.inr (.inr (hremoval hm)))
  elapsed := by
    intro x action haction hwaiting
    by_cases hid : x = id
    · subst hid
      exact helapsed action haction hwaiting
    · rw [hothers x hid] at haction
      rw [hnow]
      exact (ht.elapsed x action haction hwaiting).imp_right (hposted x hid).2

theorem Tracked.cancel (ht : s.Tracked) {running : List Nat}
    (hrunning : ∀ x, x ≠ id → x ∈ s.running → x ∈ running) :
    (({ s with running }.abort id action).post (.removal id)).Tracked := by
  have hmem : .removal id ∈ (({ s with running }.abort id action).post (.removal id)).posted := by
    simp [post]
  refine ht.touch id (fun x hx => ?_) (fun x hx => ⟨fun hq => ?_, fun hq => ?_⟩) hrunning rfl
    (fun _ => .inr (.inr (.inr hmem))) fun _ _ _ => .inr hmem
  · exact Function.update_of_ne hx _ _
  · exact List.mem_append_left _ (List.mem_append_left _ hq)
  · exact List.mem_append_left _ (List.mem_append_left _ hq)

theorem Tracked.arm (ht : s.Tracked) (id : Nat) (action : TimedAction F) (when : Int) :
    (s.arm id action when).Tracked := by
  refine ht.touch id (fun x hx => ?_) (fun x hx => ⟨List.mem_append_left _, List.mem_append_left _⟩)
    (fun x _ hr => hr) rfl (fun _ => .inl ?_) fun other hother hwaiting => ?_
  · exact (Function.update_of_ne hx _ _).trans (Function.update_of_ne hx _ _)
  · exact waits_arm.trans (if_pos rfl)
  · simp only [TimedActions.arm, store, Function.update_self] at hother
    obtain rfl := Option.some.inj hother
    contradiction

theorem Tracked.pop (ht : s.Tracked) (hposted : s.posted[i]? = some h)
    (hother : ∀ x, s.Owns x → .expiry x true ≠ h ∧ .removal x ≠ h) :
    { s with posted := s.posted.eraseIdx i }.Tracked where
  coming := by
    intro x hx
    rcases ht.coming x hx with hw | hq | hr | hm
    · exact .inl hw
    · exact .inr (.inl (mem_eraseIdx_of_ne hposted (hother x hx).1 hq))
    · exact .inr (.inr (.inl hr))
    · exact .inr (.inr (.inr (mem_eraseIdx_of_ne hposted (hother x hx).2 hm)))
  elapsed := by
    intro x action haction hwaiting
    exact (ht.elapsed x action haction hwaiting).imp_right
      (mem_eraseIdx_of_ne hposted (hother x ⟨action, haction⟩).2)

-- Such a removal misses only an action that is gone.
theorem not_owns_of_missing (hmissing : s.Missing id) (hinserted : s.Inserted id) : ¬s.Owns id := by
  rintro ⟨action, haction⟩
  have htrue := hinserted action haction
  rw [hmissing action haction] at htrue
  contradiction

theorem Tracked.step (ht : s.Tracked) (htimely : s.Timely e) (hstep : s.step e = some s') :
    s'.Tracked := by
  obtain ⟨hcareful, -, hpunctual, hnot⟩ := htimely
  cases step_steps hstep with
  | set_timer duration function =>
      have hnext : { s with next_id := s.next_id + 1 }.Tracked := ⟨ht.coming, ht.elapsed⟩
      exact hnext.arm _ _ _
  | @insert x action haction hinserted =>
      refine ht.touch x (fun y hy => Function.update_of_ne hy _ _) (fun y _ => ⟨fun hq => hq, fun hq => hq⟩)
        (fun y _ hr => hr) rfl (fun _ => ?_) fun other hother hwaiting => ?_
      · rcases ht.coming x ⟨action, haction⟩ with hw | hrest
        · exact .inl ((waits_insert haction).trans hw)
        · exact .inr hrest
      · simp only [store, Function.update_self] at hother
        obtain rfl := Option.some.inj hother
        exact ht.elapsed x action haction hwaiting
  | reset when function haction => exact ht.arm _ _ _
  | cancel haction => exact ht.cancel fun x _ hr => hr
  | remove | remove_missing => contradiction
  | pass n =>
      refine ⟨ht.coming, fun id action haction hwaiting => ?_⟩
      refine (ht.elapsed id action haction hwaiting).imp_left fun hle => ?_
      simp only
      omega
  | @expire x action haction hwaiting hdue =>
      refine ht.touch x (fun y hy => Function.update_of_ne hy _ _)
        (fun y hy => ⟨List.mem_append_left _, List.mem_append_left _⟩) (fun y _ hr => hr) rfl
        (fun _ => .inr (.inl (by simp [post]))) fun other hother _ => .inl ?_
      simp only [post, store, Function.update_self] at hother
      obtain rfl := Option.some.inj hother
      exact hdue
  | @call i x action hposted haction =>
      refine ht.touch x (fun _ _ => rfl) (fun y hy => ⟨?_, ?_⟩) (fun y _ hr => List.mem_append_left _ hr) rfl
        (fun _ => .inr (.inr (.inl (by simp)))) fun other hother hwaiting => ?_
      · exact mem_eraseIdx_of_ne hposted (by simpa using hy)
      · exact mem_eraseIdx_of_ne hposted (by simp)
      · exact (ht.elapsed x other hother hwaiting).imp_right (mem_eraseIdx_of_ne hposted (by simp))
  | skip hposted haction => exact ht.pop hposted fun y _ => ⟨by simp, by simp⟩
  | @removal i x action hposted haction hinserted =>
      refine ht.touch x (fun y hy => Function.update_of_ne hy _ _) (fun y hy => ⟨fun hq => ?_, fun hq => ?_⟩)
        (fun y _ hr => hr) rfl (fun howns => ?_) fun other hother _ => ?_
      · exact List.mem_append_left _ (mem_eraseIdx_of_ne hposted (by simp) hq)
      · exact List.mem_append_left _ (mem_eraseIdx_of_ne hposted (by simpa using hy) hq)
      · exact absurd rfl (owns_destroy.mp howns).1
      · simp [destroy] at hother
  | @removal_missing i x hposted hmissing =>
      refine ht.pop hposted fun y howns => ⟨by simp, fun heq => ?_⟩
      obtain rfl := ActionHandler.removal.inj heq
      exact not_owns_of_missing hmissing (hnot _ (by simp [hposted, ActionHandler.removed])) howns
  | @finish i x action hrunning haction hlater =>
      refine ht.touch x (fun _ _ => rfl) (fun _ _ => ⟨fun hq => hq, fun hq => hq⟩)
        (fun y hy hr => mem_eraseIdx_of_ne hrunning hy hr) rfl (fun _ => ?_)
        fun other hother hwaiting => ht.elapsed x other hother hwaiting
      cases hwaiting : action.waiting with
      | true => exact .inl ((waits_of_some haction).trans (if_pos hwaiting))
      | false =>
          have hne := hpunctual action (by simp [hrunning, haction]) hwaiting
          rcases ht.elapsed x action haction hwaiting with hle | hmem
          · exact absurd (Int.le_antisymm hle hlater) hne
          · exact .inr (.inr (.inr hmem))
  | finish_late hrunning haction hlate =>
      exact ht.cancel fun y hy hr => mem_eraseIdx_of_ne hrunning hy hr

theorem tracked_start (now : Int) : (start now : TimedActions F).Tracked := by
  refine ⟨fun id hid => ?_, fun id action haction => ?_⟩
  · obtain ⟨action, haction⟩ := hid
    contradiction
  · contradiction

-- What the io_service does by itself, in a time that goes on, while each set_timer() comes to its end.
def Serves : ActionEvent F → Prop
  | .insert _ | .handler _ | .finish _ | .pass _ => True
  | _ => False

theorem expires_of_serves (hserves : Serves e) (id : Nat) : e.expires id = 0 := by
  cases e with
  | expire => contradiction
  | set_timer | insert | reset | cancel | remove | pass | handler | finish => rfl

-- How long it is to where the function of an action may come back.
def delay (s : TimedActions F) (id : Nat) : Nat :=
  match s.m_actions id with
  | some action => if action.waiting then 0 else (action.expires_at + 1 - s.now).toNat
  | none => 0

-- Whether the action is still to be inserted.
def missed (s : TimedActions F) (id : Nat) : Nat :=
  match s.m_actions id with
  | some action => if action.inserted then 0 else 1
  | none => 0

def weight (s : TimedActions F) : ActionHandler → Nat
  | .expiry id true => s.delay id + 5
  | .expiry _ false => 1
  | .removal id => s.missed id + 1

-- How far it is to where nothing is left to call.
def load (s : TimedActions F) : Nat :=
  (s.posted.map s.weight).sum + (s.running.map fun id => s.delay id + 4).sum

def Drained (s : TimedActions F) : Prop := s.running = [] ∧ s.posted = []

-- What no step of the io_service makes longer.
structure Lighter (s' s : TimedActions F) : Prop where
  delay : ∀ id, s'.delay id ≤ s.delay id
  missed : ∀ id, s'.missed id ≤ s.missed id

theorem Lighter.weight (hl : s'.Lighter s) (h : ActionHandler) : s'.weight h ≤ s.weight h := by
  cases h with
  | expiry id ok =>
      cases ok with
      | true => exact Nat.add_le_add_right (hl.delay id) 5
      | false => exact Nat.le_refl 1
  | removal id => exact Nat.add_le_add_right (hl.missed id) 1

theorem Lighter.posted (hl : s'.Lighter s) (l : List ActionHandler) :
    (l.map s'.weight).sum ≤ (l.map s.weight).sum := List.sum_le_sum fun h _ => hl.weight h

theorem Lighter.running (hl : s'.Lighter s) (l : List Nat) :
    (l.map fun id => s'.delay id + 4).sum ≤ (l.map fun id => s.delay id + 4).sum :=
  List.sum_le_sum fun id _ => Nat.add_le_add_right (hl.delay id) 4

-- What is taken out of a list counts no more.
theorem sum_eraseIdx {α : Type} {l : List α} {a : α} (f : α → Nat) (hget : l[i]? = some a) :
    (l.map f).sum = f a + ((l.eraseIdx i).map f).sum := by
  have hsum := ((perm_eraseIdx hget).map f).sum_nat
  rw [List.map_cons, List.sum_cons] at hsum
  exact hsum.symm

theorem sum_aborted (s : TimedActions F) (id : Nat) (action : TimedAction F) :
    ((aborted id action).map s.weight).sum ≤ 1 := by
  unfold aborted
  split <;> simp [weight]

theorem lighter_of_actions (hactions : s'.m_actions = s.m_actions) (hnow : s'.now = s.now) : s'.Lighter s := by
  constructor
  · intro id
    rw [delay, delay, hactions, hnow]
  · intro id
    rw [missed, missed, hactions]

theorem lighter_store (after : TimedAction F) (haction : s.m_actions id = some action)
    (hdelay : (if after.waiting then 0 else (after.expires_at + 1 - s.now).toNat) ≤
      if action.waiting then 0 else (action.expires_at + 1 - s.now).toNat)
    (hmissed : (if after.inserted then 0 else 1) ≤ if action.inserted then 0 else 1)
    (hactions : s'.m_actions = Function.update s.m_actions id (some after)) (hnow : s'.now = s.now) :
    s'.Lighter s := by
  constructor
  · intro x
    by_cases hx : x = id
    · subst hx
      simp only [delay, hactions, hnow, Function.update_self, haction]
      exact hdelay
    · simp only [delay, hactions, hnow, Function.update_of_ne hx]
      exact Nat.le_refl _
  · intro x
    by_cases hx : x = id
    · subst hx
      simp only [missed, hactions, Function.update_self, haction]
      exact hmissed
    · simp only [missed, hactions, Function.update_of_ne hx]
      exact Nat.le_refl _

theorem lighter_destroy : (s.destroy id action).Lighter s := by
  constructor
  · intro x
    by_cases hx : x = id
    · subst hx
      simp [delay, destroy]
    · simp [delay, destroy, Function.update_of_ne hx]
  · intro x
    by_cases hx : x = id
    · subst hx
      simp [missed, destroy]
    · simp [missed, destroy, Function.update_of_ne hx]

theorem lighter_pass (n : Nat) : { s with now := s.now + n }.Lighter s := by
  constructor
  · intro id
    simp only [delay]
    split
    · split
      · exact Nat.le_refl _
      · omega
    · exact Nat.le_refl _
  · exact fun id => Nat.le_refl _

theorem Lighter.load (hl : s'.Lighter s) : s'.load ≤
    (s'.posted.map s.weight).sum + (s'.running.map fun id => s.delay id + 4).sum :=
  Nat.add_le_add (hl.posted _) (hl.running _)

theorem load_lt_of_actions (hactions : s'.m_actions = s.m_actions) (hnow : s'.now = s.now)
    (hlt : (s'.posted.map s.weight).sum + (s'.running.map fun id => s.delay id + 4).sum < s.load) :
    s'.load < s.load :=
  Nat.lt_of_le_of_lt (lighter_of_actions hactions hnow).load hlt

theorem load_handler (ho : s.Orderly) (hstep : s.step (.handler i) = some s') : s'.load < s.load := by
  cases step_steps hstep with
  | call hposted haction =>
      refine load_lt_of_actions (s := s) rfl rfl ?_
      rw [load, sum_eraseIdx _ hposted, List.map_append, List.sum_append]
      simp only [weight, List.map_singleton, List.sum_singleton]
      omega
  | skip hposted haction =>
      refine load_lt_of_actions (s := s) rfl rfl ?_
      rw [load, sum_eraseIdx _ hposted]
      simp only [weight]
      omega
  | @removal i id action hposted haction hinserted =>
      have hstill := ho.still id action (List.mem_of_getElem? hposted) haction
      have hpop : { s with posted := s.posted.eraseIdx i }.load < s.load := by
        refine load_lt_of_actions (s := s) rfl rfl ?_
        rw [load, sum_eraseIdx _ hposted]
        simp only [weight]
        omega
      refine Nat.lt_of_le_of_lt (Nat.le_trans lighter_destroy.load ?_) hpop
      simp [destroy, aborted, hstill, load]
  | removal_missing hposted hmissing =>
      refine load_lt_of_actions (s := s) rfl rfl ?_
      rw [load, sum_eraseIdx _ hposted]
      simp only [weight]
      omega

theorem load_finish (hstep : s.step (.finish i) = some s') : s'.load < s.load := by
  cases step_steps hstep with
  | finish hrunning haction hlater =>
      refine load_lt_of_actions (s := s) rfl rfl ?_
      rw [load, sum_eraseIdx (fun id => s.delay id + 4) hrunning]
      dsimp only
      omega
  | @finish_late i id action hrunning haction hlate =>
      have hl : (({ s with running := s.running.eraseIdx i }.abort id action).post (.removal id)).Lighter s := by
        refine lighter_store { action with waiting := false } haction ?_ (Nat.le_refl _) rfl rfl
        simp only [Bool.false_eq_true, if_false]
        omega
      have haborted := s.sum_aborted id action
      have hmissed : s.missed id ≤ 1 := by
        simp only [missed, haction]
        split <;> omega
      refine Nat.lt_of_le_of_lt hl.load ?_
      rw [load, sum_eraseIdx (fun id => s.delay id + 4) hrunning]
      simp only [post, abort, store, List.map_append, List.sum_append, List.map_singleton,
        List.sum_singleton, weight]
      omega

-- A removal that is to be called waits for the insertion.
theorem load_insert (haction : s.m_actions id = some action) (hinserted : action.inserted = false)
    (hposted : s.posted[i]? = some (.removal id)) :
    (s.store id { action with inserted := true }).load < s.load := by
  have hl : (s.store id { action with inserted := true }).Lighter s :=
    lighter_store { action with inserted := true } haction (Nat.le_refl _) (by simp) rfl rfl
  have hbefore : s.missed id = 1 := by simp [missed, haction, hinserted]
  have hafter : (s.store id { action with inserted := true }).missed id = 0 := by simp [missed, store]
  have hrest := hl.posted (s.posted.eraseIdx i)
  have hrunning := hl.running s.running
  rw [load, load, sum_eraseIdx s.weight hposted]
  change ((s.posted.map _).sum + (s.running.map _).sum) < _
  rw [sum_eraseIdx _ hposted]
  simp only [weight] at hrest ⊢
  omega

-- So does the end of a function for the time.
theorem load_pass (hrunning : s.running[i]? = some id) (haction : s.m_actions id = some action)
    (hwaiting : action.waiting = false) (hnow : action.expires_at = s.now) :
    { s with now := s.now + 1 }.load < s.load := by
  have hl : { s with now := s.now + 1 }.Lighter s := lighter_pass 1
  have hbefore : s.delay id = 1 := by simp [delay, haction, hwaiting, hnow]
  have hafter : { s with now := s.now + 1 }.delay id = 0 := by simp [delay, haction, hwaiting, hnow]
  have hposted := hl.posted s.posted
  have hrest := hl.running (s.running.eraseIdx i)
  rw [load, load, sum_eraseIdx (fun id => s.delay id + 4) hrunning]
  change ((s.posted.map _).sum + (s.running.map _).sum) < _
  rw [sum_eraseIdx _ hrunning]
  omega

structure Going (s : TimedActions F) : Prop where
  sound : s.Sound
  tidy : s.Tidy
  tracked : s.Tracked

theorem Going.step (hg : s.Going) (htimely : s.Timely e) (hstep : s.step e = some s') : s'.Going where
  sound := hg.sound.step htimely.quiet hstep
  tidy := hg.tidy.step htimely.careful hstep
  tracked := hg.tracked.step htimely hstep

theorem going_start (now : Int) : (start now : TimedActions F).Going :=
  ⟨sound_start now, tidy_start now, tracked_start now⟩

-- Some step of the io_service leads nearer to the end.
def Eases (s : TimedActions F) : Prop :=
  ∃ e s', s.Timely e ∧ Serves e ∧ s.step e = some s' ∧ s'.load < s.load

theorem Going.eases_of_running (hg : s.Going) (hrunning : s.running[0]? = some id) : s.Eases := by
  have hlt := (List.getElem?_eq_some_iff.mp hrunning).1
  obtain ⟨action, haction⟩ := hg.sound.running id (List.mem_of_getElem? hrunning)
  by_cases hnow : action.waiting = false ∧ action.expires_at = s.now
  · exact ⟨.pass 1, _, ⟨trivial, trivial, trivial, trivial⟩, trivial, rfl,
      load_pass hrunning haction hnow.1 hnow.2⟩
  · obtain ⟨later, hstep⟩ := hg.sound.finish hlt
    refine ⟨.finish 0, later, ⟨trivial, trivial, fun other hother hwaiting heq => ?_, trivial⟩, trivial,
      hstep, load_finish hstep⟩
    rw [hrunning, Option.bind_some, haction] at hother
    obtain rfl := Option.some.inj hother
    exact hnow ⟨hwaiting, heq⟩

theorem Going.eases_of_expiry (hg : s.Going) {ok : Bool} (hposted : s.posted[i]? = some (.expiry id ok)) :
    s.Eases := by
  obtain ⟨later, hstep⟩ := hg.sound.handler (List.getElem?_eq_some_iff.mp hposted).1
  refine ⟨.handler i, later, ⟨trivial, fun other hother => ?_, trivial, fun other hother => ?_⟩, trivial,
    hstep, load_handler hg.tidy.orderly hstep⟩
  · have heq := Option.some.inj (hposted.symm.trans hother)
    contradiction
  · rw [hposted, Option.bind_some, ActionHandler.removed] at hother
    contradiction

-- Once nothing else is to be called the actions can go.
theorem Going.eases_of_removal (hg : s.Going) (hidle : s.running = [])
    (hlast : ∀ id ok, .expiry id ok ∉ s.posted) (hposted : s.posted[i]? = some (.removal id)) : s.Eases := by
  by_cases hinserted : s.Inserted id
  · obtain ⟨later, hstep⟩ := hg.sound.handler (List.getElem?_eq_some_iff.mp hposted).1
    refine ⟨.handler i, later, ⟨trivial, fun other hother => ?_, trivial, fun other hother => ?_⟩, trivial,
      hstep, load_handler hg.tidy.orderly hstep⟩
    · obtain rfl := ActionHandler.removal.inj (Option.some.inj (hposted.symm.trans hother))
      intro action haction _
      have hstill := hg.tidy.orderly.still id action (List.mem_of_getElem? hposted) haction
      exact ⟨hstill, by simp [hidle], fun ok => hlast id ok⟩
    · rw [hposted, Option.bind_some, ActionHandler.removed] at hother
      obtain rfl := Option.some.inj hother
      exact hinserted
  · simp only [Inserted, not_forall, Bool.not_eq_true] at hinserted
    obtain ⟨action, haction, hinserted⟩ := hinserted
    have hstep : s.step (.insert id) = some (s.store id { action with inserted := true }) := by
      have haction : s.m_actions id = some action := haction
      simp [TimedActions.step, insert, haction, hinserted]
    exact ⟨.insert id, _, ⟨trivial, trivial, trivial, trivial⟩, trivial, hstep,
      load_insert haction hinserted hposted⟩

theorem Going.eases (hg : s.Going) (hdrained : ¬s.Drained) : s.Eases := by
  by_cases hidle : s.running = []
  · by_cases hlast : ∃ id ok, .expiry id ok ∈ s.posted
    · obtain ⟨id, ok, hmem⟩ := hlast
      obtain ⟨i, hi⟩ := List.mem_iff_getElem?.mp hmem
      exact hg.eases_of_expiry hi
    · obtain ⟨h, rest, hcons⟩ := List.exists_cons_of_ne_nil fun hnil => hdrained ⟨hidle, hnil⟩
      have hlast : ∀ id ok, .expiry id ok ∉ s.posted := fun id ok hmem => hlast ⟨id, ok, hmem⟩
      cases h with
      | expiry id ok => exact (hlast id ok (by simp [hcons])).elim
      | removal id =>
          have hfirst : s.posted[0]? = some (.removal id) := by rw [hcons, List.getElem?_cons_zero]
          exact hg.eases_of_removal hidle hlast hfirst
  · obtain ⟨id, rest, hcons⟩ := List.exists_cons_of_ne_nil hidle
    have hfirst : s.running[0]? = some id := by rw [hcons, List.getElem?_cons_zero]
    exact hg.eases_of_running hfirst

theorem approaches_drained :
    Approaches step (fun (s : TimedActions F) e => s.Timely e ∧ Serves e) Going Drained load := by
  intro s hg hdrained
  obtain ⟨e, later, htimely, hserves, hstep, hlt⟩ := hg.eases hdrained
  exact ⟨e, later, ⟨htimely, hserves⟩, hstep, hg.step htimely hstep, hlt⟩

theorem Tracked.waits_of_drained (ht : s.Tracked) (hdrained : s.Drained) (howns : s.Owns id) :
    s.waits id = 1 := by
  obtain ⟨hrunning, hposted⟩ := hdrained
  rcases ht.coming id howns with hw | hq | hr | hm
  · exact hw
  · simp [hposted] at hq
  · simp [hrunning] at hr
  · simp [hposted] at hm

theorem owns_of_waits (h : s.waits id = 1) : s.Owns id := by
  by_contra hgone
  rw [waits_of_not_owns hgone] at h
  contradiction

theorem calls_of_serves {trace : List (ActionEvent F)} {t : TimedActions F}
    (hrun : Run step (fun s e => s.Timely e ∧ Serves e) s trace t) (id : Nat) :
    t.calls id + t.queued id = s.calls id + s.queued id := by
  induction hrun with
  | start => rfl
  | next _ hallowed hstep ih => rw [calls_step hstep, expires_of_serves hallowed.2, Nat.add_zero, ih]

-- Every expiry is one call, and only reset() brings more than one for an action. Whenever the
-- io_service is left to itself it can come to an end, where all calls have been made, and no action is
-- kept but those whose timers run.
theorem expiries_are_called {now : Int} {trace : List (ActionEvent F)}
    (hrun : Run step Always (start now) trace s) :
    (∀ id, s.calls id + s.queued id = (trace.map (ActionEvent.expires id)).sum ∧
      s.calls id + s.queued id + s.waits id ≤ 1 + (trace.map (ActionEvent.resets id)).sum) ∧
    (Run step Timely (start now) trace s →
      ∃ more t, Run step (fun s e => s.Timely e ∧ Serves e) s more t ∧ t.Drained ∧
        ∀ id, t.calls id = (trace.map (ActionEvent.expires id)).sum ∧ (t.Owns id ↔ t.waits id = 1)) := by
  have hcalls (id : Nat) : s.calls id + s.queued id = (trace.map (ActionEvent.expires id)).sum := by
    have hadds := hrun.adds (fun s => s.calls id + s.queued id) (ActionEvent.expires id) calls_step
    rw [hadds]
    exact Nat.zero_add _
  refine ⟨fun id => ⟨hcalls id, ?_⟩, fun htimely => ?_⟩
  · have hraises := hrun.raises (fun s => s.budget id) (ActionEvent.resets id) budget_step
    have hstart : (start now : TimedActions F).budget id = 1 := rfl
    rw [hstart] at hraises
    exact Nat.le_trans (Nat.le_add_right _ _) hraises
  · have hg : s.Going := htimely.invariant (going_start now) Going.step
    obtain ⟨more, t, hmore, ht, hdrained⟩ := approaches_drained.reaches hg
    refine ⟨more, t, hmore, hdrained, fun id => ⟨?_, ?_⟩⟩
    · have hqueued : t.queued id = 0 := by rw [queued, hdrained.2, List.count_nil]
      have hsame := calls_of_serves hmore id
      rw [hqueued, Nat.add_zero] at hsame
      exact hsame.trans (hcalls id)
    · exact ⟨ht.tracked.waits_of_drained hdrained, owns_of_waits⟩

instance (s : TimedActions F) : (e : ActionEvent F) → Decidable (s.Punctual e)
  | .finish _ => inferInstanceAs (Decidable (∀ action ∈ _, _ → _))
  | .set_timer .. | .insert _ | .reset .. | .cancel _ | .remove _ | .pass _ | .expire _ | .handler _ =>
      inferInstanceAs (Decidable True)

instance (s : TimedActions F) (id : Nat) : Decidable (s.Inserted id) :=
  inferInstanceAs (Decidable (∀ action ∈ _, _))

instance (s : TimedActions F) : (e : ActionEvent F) → Decidable (s.NotMissed e)
  | .remove _ => inferInstanceAs (Decidable (Inserted _ _))
  | .handler _ => inferInstanceAs (Decidable (∀ id ∈ _, Inserted _ _))
  | .set_timer .. | .insert _ | .reset .. | .cancel _ | .pass _ | .expire _ | .finish _ =>
      inferInstanceAs (Decidable True)

theorem expiries_are_called_twice : ∃ s, Run step Timely (start 0) twice s ∧
    ∃ more t, Run step (fun s e => s.Timely e ∧ Serves e) s more t ∧ t.Drained ∧ t.calls 0 = 2 ∧
      t.calls 1 = 0 ∧ (t.Owns 0 ↔ t.waits 0 = 1) := by
  have hsome : (twice.foldlM (guarded step fun s e => (s.Careful e ∧ s.InTurn e) ∧ s.Punctual e ∧
      s.NotMissed e) (start 0)).isSome = true := by decide
  obtain ⟨s, hs⟩ := Option.isSome_iff_exists.mp hsome
  have hrun := Run.of_foldlM hs
  have htimely : Run step Timely (start 0) twice s :=
    hrun.weaken (tidy_start 0) (fun ht hall => ht.step hall.1.1) fun ht hall =>
      ⟨hall.1.1, ht.orderly.quiet hall.1.1 hall.1.2, hall.2.1, hall.2.2⟩
  obtain ⟨more, t, hmore, hdrained, hcalls⟩ := (expiries_are_called hrun.always).2 htimely
  exact ⟨s, htimely, more, t, hmore, hdrained, (hcalls 0).1, (hcalls 1).1, (hcalls 0).2⟩

end TimedActions

end RoboCrisp.Util
