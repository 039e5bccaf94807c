import Mathlib.Data.List.Chain
import Mathlib.Data.List.Induction
import RoboCrisp.Input.Axis.Emulation

namespace RoboCrisp.Input

open RoboCrisp.Transition

-- Emulation of a relative axis by one that reports where it stands.

variable {axis : Axis} {s t u : Posted} {r : RawValue} {events : List RawValue}

structure Axis.EmulatesRelative (axis : Axis) : Prop where
  type_eq : axis.type = .ABSOLUTE
  mode_eq : axis.mode = .RELATIVE

theorem Axis.EmulatesRelative.emulate_eq (h : axis.EmulatesRelative) (r : RawValue) :
    axis.emulate r = int32 (r.toInt - axis.m_last_raw_value.toInt) >>= fun change =>
      .ok (change, { axis with m_last_raw_value := r }) := by
  rw [emulate, if_pos (by rw [h.type_eq, h.mode_eq]; decide), h.mode_eq]

def Fits (value : Int) : Prop := -2 ^ 31 ≤ value ∧ value < 2 ^ 31

instance (value : Int) : Decidable (Fits value) := inferInstanceAs (Decidable (_ ∧ _))

-- The change from one raw value to the next lies in the range of the raw values themselves. Where
-- the mapping throws, so that nothing is emitted, there is no change.
def Axis.Reports (axis : Axis) (last next : RawValue) : Prop :=
  let change := Int32.ofInt (next.toInt - last.toInt)
  (axis.Emits (axis.clip change) → axis.raw.Contains change) ∧
    (¬axis.Emits (axis.clip change) → change = 0)

-- After every event, what has been emitted adds up to the way from the first raw value to the last.
def Axis.Reproduces (axis : Axis) (events : List RawValue) : Prop :=
  ∀ done r, done ++ [r] <+: events →
    ∃ t, Run Posted.post Always (.start axis) (done ++ [r]) t ∧
      t.total = r.toInt - axis.m_last_raw_value.toInt

namespace Posted

-- One post adds the whole way to the total exactly when the way can be reported.
theorem post_relative (h : s.axis.EmulatesRelative)
    (hrange : s.axis.raw.minimum.toInt ≤ s.axis.raw.maximum.toInt) (hpost : s.post r = some t) :
    t.axis = { s.axis with m_last_raw_value := r } ∧
      (t.total = s.total + (r.toInt - s.axis.m_last_raw_value.toInt) ↔
        s.axis.Reports s.axis.m_last_raw_value r) := by
  obtain ⟨emulated, hemulate, hcases⟩ := post_inv hpost
  rw [h.emulate_eq] at hemulate
  obtain ⟨change, hchange, hemulate⟩ := bind_eq_ok_iff.mp hemulate
  obtain ⟨rfl, haxis⟩ := Prod.mk.inj (Except.ok.inj hemulate)
  have hvalue := toInt_of_int32 hchange
  have hofInt : Int32.ofInt (r.toInt - s.axis.m_last_raw_value.toInt) = change := by
    rw [← hvalue, Int32.ofInt_toInt]
  refine ⟨haxis.symm, ?_⟩
  simp only [Axis.Reports, hofInt]
  rw [← hvalue]
  obtain ⟨hemits, ht⟩ | ⟨hthrows, ht⟩ := hcases
  · rw [ht, emit, Int.add_right_inj, Axis.clip_eq_iff (.inl h.type_eq) hrange]
    exact ⟨fun hspans => ⟨fun _ => hspans, fun hthrows => absurd hemits hthrows⟩,
      fun hreports => hreports.1 hemits⟩
  · rw [ht, left_eq_add, ← Int32.toInt_zero, Int32.toInt_inj]
    exact ⟨fun hzero => ⟨fun hemits => absurd hemits hthrows, fun _ => hzero⟩,
      fun hreports => hreports.2 hthrows⟩

theorem run_last (h : axis.EmulatesRelative)
    (hrun : Run post Always (start axis) events t) :
    (∃ m, t.axis = { axis with m_last_raw_value := m }) ∧
      (axis.m_last_raw_value :: events).getLast? = some t.axis.m_last_raw_value := by
  cases hrun with
  | start => exact ⟨⟨_, rfl⟩, rfl⟩
  | @next trace s _ r hrun _ hpost =>
      obtain ⟨m, hm⟩ := run_axis hrun
      have hrelative : s.axis.EmulatesRelative := by
        rw [hm]
        exact ⟨h.type_eq, h.mode_eq⟩
      obtain ⟨emulated, hemulate, -⟩ := post_inv hpost
      rw [hrelative.emulate_eq] at hemulate
      obtain ⟨change, -, hemulate⟩ := bind_eq_ok_iff.mp hemulate
      obtain ⟨-, haxis⟩ := Prod.mk.inj (Except.ok.inj hemulate)
      rw [← haxis, hm, ← List.cons_append, List.getLast?_concat]
      exact ⟨⟨r, rfl⟩, rfl⟩

theorem isChain_iff {R : RawValue → RawValue → Prop} (h : axis.EmulatesRelative)
    (hrun : Run post Always (start axis) events t) :
    (axis.m_last_raw_value :: (events ++ [r])).IsChain R ↔
      (axis.m_last_raw_value :: events).IsChain R ∧ R t.axis.m_last_raw_value r := by
  rw [← List.cons_append, List.isChain_append, (run_last h hrun).2]
  simp

-- No difference overflows as long as each of them fits.
theorem exists_run_of_fits (h : axis.EmulatesRelative)
    (hfits : (axis.m_last_raw_value :: events).IsChain fun last next => Fits (next.toInt - last.toInt)) :
    ∃ t, Run post Always (start axis) events t := by
  induction events using List.reverseRecOn with
  | nil => exact ⟨_, .start⟩
  | append_singleton trace r ih =>
      have hsplit := hfits
      rw [← List.cons_append] at hsplit
      obtain ⟨t, hrun⟩ := ih hsplit.left_of_append
      obtain ⟨⟨m, hm⟩, -⟩ := run_last h hrun
      have hrelative : t.axis.EmulatesRelative := by
        rw [hm]
        exact ⟨h.type_eq, h.mode_eq⟩
      obtain ⟨-, hlower, hupper⟩ := (isChain_iff h hrun).mp hfits
      obtain ⟨change, hchange, -⟩ := int32_of_fits hlower hupper
      obtain ⟨u, hpost⟩ := exists_post (s := t) (r := r)
        (by rw [hrelative.emulate_eq, hchange, ok_bind])
      exact ⟨u, .next hrun trivial hpost⟩

-- The total is the way that the axis has come.
def Accounts (axis : Axis) (t : Posted) : Prop :=
  (∃ m, t.axis = { axis with m_last_raw_value := m }) ∧
    t.total = t.axis.m_last_raw_value.toInt - axis.m_last_raw_value.toInt

theorem accounts_start (axis : Axis) : (start axis).Accounts axis := ⟨⟨_, rfl⟩, by simp [start]⟩

theorem run_reports_iff (h : axis.EmulatesRelative) (hrun : Run post Always (start axis) events t) :
    Run post (fun s r => axis.Reports s.axis.m_last_raw_value r) (start axis) events t ↔
      (axis.m_last_raw_value :: events).IsChain axis.Reports := by
  induction hrun with
  | start => exact ⟨fun _ => .singleton _, fun _ => .start⟩
  | @next trace s u r hrun _ hpost ih =>
      rw [hrun.next_iff hpost, isChain_iff h hrun, ← ih]

theorem Accounts.post_iff (h : axis.EmulatesRelative)
    (hrange : axis.raw.minimum.toInt ≤ axis.raw.maximum.toInt) (haccounts : t.Accounts axis)
    (hpost : t.post r = some u) :
    u.Accounts axis ↔ axis.Reports t.axis.m_last_raw_value r := by
  obtain ⟨⟨m, hm⟩, htotal⟩ := haccounts
  have hrelative : t.axis.EmulatesRelative := by
    rw [hm]
    exact ⟨h.type_eq, h.mode_eq⟩
  obtain ⟨haxis, hiff⟩ := post_relative hrelative (by rw [hm]; exact hrange) hpost
  have hsame : t.axis.Reports t.axis.m_last_raw_value r ↔ axis.Reports t.axis.m_last_raw_value r := by
    rw [hm]
    exact Iff.rfl
  rw [← hsame, ← hiff, Accounts, haxis, htotal]
  constructor
  · rintro ⟨-, hu⟩
    rw [hu]
    ring
  · intro hu
    refine ⟨⟨r, by rw [hm]⟩, ?_⟩
    rw [hu]
    ring

end Posted

theorem Axis.reproduces_iff_throughout (h : axis.EmulatesRelative)
    (hrun : Run Posted.post Always (.start axis) events t) :
    axis.Reproduces events ↔ Throughout (Posted.Accounts axis) Posted.post (.start axis) events := by
  constructor
  · intro hreproduces done u hdone hu
    refine ⟨(Posted.run_last h hu).1, ?_⟩
    rcases List.eq_nil_or_concat' done with rfl | ⟨front, r, rfl⟩
    · rw [hu.eq_of_nil]
      simp [Posted.start]
    · obtain ⟨u', hu', htotal⟩ := hreproduces front r hdone
      obtain rfl := hu'.unique hu
      have hlast := (Posted.run_last h hu).2
      rw [← List.cons_append, List.getLast?_concat] at hlast
      rw [htotal, ← Option.some.inj hlast]
  · intro hthroughout front r hdone
    obtain ⟨u, hu⟩ := hrun.of_prefix hdone
    have hlast := (Posted.run_last h hu).2
    rw [← List.cons_append, List.getLast?_concat] at hlast
    refine ⟨u, hu, ?_⟩
    rw [(hthroughout hdone hu).2, ← Option.some.inj hlast]

-- The position can be reproduced exactly when every change is one that the clipping of the raw
-- values leaves alone.
theorem Axis.reproduces_iff (axis : Axis) (h : axis.EmulatesRelative)
    (hrange : axis.raw.minimum.toInt ≤ axis.raw.maximum.toInt) (events : List RawValue)
    (hfits : (axis.m_last_raw_value :: events).IsChain fun last next => Fits (next.toInt - last.toInt)) :
    axis.Reproduces events ↔ (axis.m_last_raw_value :: events).IsChain axis.Reports := by
  obtain ⟨t, hrun⟩ := Posted.exists_run_of_fits h hfits
  rw [reproduces_iff_throughout h hrun, ← Posted.run_reports_iff h hrun]
  refine hrun.throughout_iff (Posted.accounts_start axis) id ?_ ?_
  · intro t u r haccounts hreports hpost
    exact (haccounts.post_iff h hrange hpost).mpr hreports
  · intro t u r haccounts hreports hpost hu
    exact hreports ((haccounts.post_iff h hrange hpost).mp hu)

-- A lever whose raw values are never negative, and without a mapping.
def lever : Axis :=
  { Axis.of_type .ABSOLUTE with mode := .RELATIVE, raw := ⟨0, 0, 255, 0, 0⟩ }

theorem lever_reports {last next : RawValue}
    (h : lever.raw.Contains (Int32.ofInt (next.toInt - last.toInt))) : lever.Reports last next := by
  have hemits (value : RawValue) : lever.Emits value := fun hmethod => absurd rfl hmethod
  exact ⟨fun _ => h, fun hthrows => absurd (hemits _) hthrows⟩

theorem lever_reproduces : lever.Reproduces [10, 30, 200] :=
  (Axis.reproduces_iff lever ⟨rfl, rfl⟩ (by decide) [10, 30, 200] (by decide)).mpr
    (.cons_cons (lever_reports (by decide)) (.cons_cons (lever_reports (by decide))
      (.cons_cons (lever_reports (by decide)) (.singleton _))))

-- The lever is pulled out and let back by half.
theorem lever_not_reproduces :
    ¬∀ axis : Axis, axis.EmulatesRelative → axis.raw.minimum.toInt ≤ axis.raw.maximum.toInt →
      ∀ events : List RawValue, (∀ r ∈ events, axis.raw.Contains r) →
      ((axis.m_last_raw_value :: events).IsChain fun last next => Fits (next.toInt - last.toInt)) →
      axis.Reproduces events := by
  intro h
  have hcontains : ∀ r ∈ [100, 50], lever.raw.Contains r :=
    List.forall_mem_cons.mpr ⟨by decide, List.forall_mem_singleton.mpr (by decide)⟩
  obtain ⟨t, hrun, htotal⟩ := h lever ⟨rfl, rfl⟩ (by decide) [100, 50] hcontains (by decide) [100] 50
    List.prefix_rfl
  have hfound : Run Posted.post Always (.start lever) [100, 50]
      ⟨{ lever with m_last_raw_value := 50 }, some 0, 100⟩ :=
    .of_foldlM (by decide)
  rw [hfound.unique hrun] at htotal
  exact absurd htotal (by decide)

end RoboCrisp.Input
