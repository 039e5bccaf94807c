import Mathlib.Data.List.Induction
import RoboCrisp.Input.Axis.Emulation

namespace RoboCrisp.Input

open RoboCrisp.Transition

-- Emulation of an absolute axis by one that reports its movements.

variable {axis : Axis} {s t u : Posted} {r : RawValue} {events : List RawValue}

structure Axis.EmulatesAbsolute (axis : Axis) : Prop where
  type_eq : axis.type = .RELATIVE
  mode_eq : axis.mode = .ABSOLUTE

theorem Axis.EmulatesAbsolute.emulate_eq (h : axis.EmulatesAbsolute) (r : RawValue) :
    axis.emulate r = int32 (r.toInt + axis.m_last_raw_value.toInt) >>= fun sum =>
      .ok (sum, { axis with m_last_raw_value := sum }) := by
  rw [emulate, if_pos (by rw [h.type_eq, h.mode_eq]; decide), h.mode_eq]

-- The raw value that the last post has emitted lies in the range and is the one that the next
-- event is added to.
def Posted.Tracked (posted : Posted) : Prop :=
  ∀ value, posted.raw_value = some value →
    posted.axis.raw.Contains value ∧ posted.axis.m_last_raw_value = value

-- The event does not push the axis past an end of the range.
def Posted.Within (posted : Posted) (r : RawValue) : Prop :=
  posted.axis.raw.Spans (posted.axis.m_last_raw_value.toInt + r.toInt)

-- The sums of the events so far, counted from where the axis stands, lie in the range.
def Axis.StaysWithin (axis : Axis) (events : List RawValue) : Prop :=
  ∀ n < events.length,
    axis.raw.Spans (axis.m_last_raw_value.toInt + ((events.take (n + 1)).map Int32.toInt).sum)

theorem Axis.staysWithin_concat : axis.StaysWithin (events ++ [r]) ↔ axis.StaysWithin events ∧
    axis.raw.Spans (axis.m_last_raw_value.toInt + ((events ++ [r]).map Int32.toInt).sum) := by
  rw [StaysWithin, List.length_append, List.length_singleton]
  simp only [Nat.lt_succ_iff_lt_or_eq, or_imp, forall_and, forall_eq]
  refine and_congr (forall₂_congr fun n hn => ?_) ?_
  · rw [List.take_append_of_le_length hn]
  · rw [List.take_of_length_le (by simp)]

instance (axis : Axis) (events : List RawValue) : Decidable (axis.StaysWithin events) :=
  inferInstanceAs (Decidable (∀ n < events.length, _))

-- What an emulated absolute axis promises of a sequence of relative events.
structure Axis.Tracks (axis : Axis) (events : List RawValue) : Prop where
  tracked : ∀ done t, done <+: events → Run Posted.post Always (.start axis) done t → t.Tracked
  moves : ∀ done r t u before after, done ++ [r] <+: events →
    Run Posted.post Always (.start axis) done t → t.post r = some u →
    t.raw_value = some before → u.raw_value = some after →
    after.toInt = min (max (before.toInt + r.toInt) axis.raw.minimum.toInt) axis.raw.maximum.toInt
  never_overflows : (∀ r ∈ events, |r.toInt| ≤ axis.raw.maximum.toInt - axis.raw.minimum.toInt) →
    2 * (axis.raw.maximum.toInt - axis.raw.minimum.toInt) < 2 ^ 31 →
    ∃ t, Run Posted.post Always (.start axis) events t

namespace Posted

theorem post_absolute (h : s.axis.EmulatesAbsolute) (hpost : s.post r = some t) :
    ∃ sum : RawValue, sum.toInt = s.axis.m_last_raw_value.toInt + r.toInt ∧
      t.axis = { s.axis with m_last_raw_value := sum } ∧
      (∀ value, t.raw_value = some value → value = s.axis.clip sum) ∧
      (s.axis.Emits (s.axis.clip sum) → t.raw_value = some (s.axis.clip sum)) := by
  obtain ⟨emulated, hemulate, hcases⟩ := post_inv hpost
  rw [h.emulate_eq] at hemulate
  obtain ⟨sum, hsum, hemulate⟩ := bind_eq_ok_iff.mp hemulate
  obtain ⟨rfl, haxis⟩ := Prod.mk.inj (Except.ok.inj hemulate)
  refine ⟨sum, by rw [toInt_of_int32 hsum, add_comm], haxis.symm, fun value hvalue => ?_,
    fun hemits => ?_⟩
  · obtain ⟨-, ht⟩ | ⟨-, ht⟩ := hcases
    · rw [ht] at hvalue
      exact (Option.some.inj hvalue).symm
    · rw [ht] at hvalue
      cases hvalue
  · obtain ⟨-, ht⟩ | ⟨hthrows, -⟩ := hcases
    · rw [ht]
      rfl
    · exact absurd hemits hthrows

theorem Within.tracked (hwithin : s.Within r) (h : s.axis.EmulatesAbsolute)
    (hpost : s.post r = some t) : t.Tracked := by
  obtain ⟨sum, hsum, haxis, hstate, -⟩ := post_absolute h hpost
  have hspans : s.axis.raw.Spans sum.toInt := by
    rw [hsum]
    exact hwithin
  have hclip : s.axis.clip sum = sum := Int32.toInt_inj.mp
    ((Axis.clip_eq_iff (.inr h.mode_eq) (hspans.1.trans hspans.2)).mpr hspans)
  intro value hsome
  rw [haxis, hstate value hsome, hclip]
  exact ⟨hspans, rfl⟩

theorem Within.of_tracked (h : s.axis.EmulatesAbsolute)
    (hrange : s.axis.raw.minimum.toInt ≤ s.axis.raw.maximum.toInt)
    (hemits : ∀ value, s.axis.raw.Contains value → s.axis.Emits value)
    (hpost : s.post r = some t) (htracked : t.Tracked) : s.Within r := by
  obtain ⟨sum, hsum, haxis, -, hstate⟩ := post_absolute h hpost
  have hvalue := hstate (hemits _ (Axis.contains_clip hrange (.inr h.mode_eq) sum))
  obtain ⟨-, hlast⟩ := htracked _ hvalue
  rw [haxis] at hlast
  have hspans := (Axis.clip_eq_iff (.inr h.mode_eq) hrange).mp (congrArg Int32.toInt hlast.symm)
  rw [hsum] at hspans
  exact hspans

-- The axis has added up all events of the run.
theorem run_sum (h : axis.EmulatesAbsolute) (hrun : Run post Always (start axis) events t) :
    t.axis.m_last_raw_value.toInt =
      axis.m_last_raw_value.toInt + (events.map Int32.toInt).sum := by
  induction hrun with
  | start => simp [start]
  | next hrun _ hpost ih =>
      obtain ⟨m, hm⟩ := run_axis hrun
      obtain ⟨sum, hsum, haxis, -⟩ := post_absolute (by rw [hm]; exact ⟨h.type_eq, h.mode_eq⟩) hpost
      rw [haxis, hsum, ih, List.map_append, List.sum_append]
      simp [add_assoc]

theorem run_within_iff (h : axis.EmulatesAbsolute) (hrun : Run post Always (start axis) events t) :
    Run post Within (start axis) events t ↔ axis.StaysWithin events := by
  induction hrun with
  | start => exact ⟨fun _ n hn => absurd hn (Nat.not_lt_zero n), fun _ => .start⟩
  | @next trace s u r hrun _ hpost ih =>
      obtain ⟨m, hm⟩ := run_axis hrun
      have hstep : s.Within r ↔ axis.raw.Spans
          (axis.m_last_raw_value.toInt + ((trace ++ [r]).map Int32.toInt).sum) := by
        rw [Within, run_sum h hrun, hm, List.map_append, List.sum_append]
        simp [add_assoc]
      rw [hrun.next_iff hpost, Axis.staysWithin_concat, ← hstep, ← ih]

-- No addition overflows while the sums stay in the range.
theorem exists_run (h : axis.EmulatesAbsolute) (hstays : axis.StaysWithin events) :
    ∃ t, Run post Always (start axis) events t := by
  induction events using List.reverseRecOn with
  | nil => exact ⟨_, .start⟩
  | append_singleton trace r ih =>
      obtain ⟨hbefore, hspans⟩ := Axis.staysWithin_concat.mp hstays
      obtain ⟨t, hrun⟩ := ih hbefore
      obtain ⟨m, hm⟩ := run_axis hrun
      rw [List.map_append, List.sum_append, ← add_assoc, ← run_sum h hrun] at hspans
      simp only [List.map_singleton, List.sum_singleton] at hspans
      have hlower := axis.raw.minimum.le_toInt
      have hupper := axis.raw.maximum.toInt_lt
      obtain ⟨sum, hsum, -⟩ := int32_of_fits
        (by rw [add_comm]; exact hlower.trans hspans.1 :
          -2 ^ 31 ≤ r.toInt + t.axis.m_last_raw_value.toInt)
        (by rw [add_comm]; exact hspans.2.trans_lt hupper)
      have habsolute : t.axis.EmulatesAbsolute := by
        rw [hm]
        exact ⟨h.type_eq, h.mode_eq⟩
      obtain ⟨u, hpost⟩ := exists_post (s := t) (r := r)
        (by rw [habsolute.emulate_eq, hsum, ok_bind])
      exact ⟨u, .next hrun trivial hpost⟩

-- The axis is the one of the start, up to the last raw value, and that is tracked.
def Follows (axis : Axis) (t : Posted) : Prop :=
  (∃ m, t.axis = { axis with m_last_raw_value := m }) ∧ t.Tracked

theorem follows_start (axis : Axis) : (start axis).Follows axis := ⟨⟨_, rfl⟩, nofun⟩

theorem Follows.absolute (h : axis.EmulatesAbsolute) (hfollows : t.Follows axis) :
    t.axis.EmulatesAbsolute := by
  obtain ⟨⟨m, hm⟩, -⟩ := hfollows
  rw [hm]
  exact ⟨h.type_eq, h.mode_eq⟩

theorem Follows.post (h : axis.EmulatesAbsolute) (hfollows : t.Follows axis) (hwithin : t.Within r)
    (hpost : t.post r = some u) : u.Follows axis := by
  obtain ⟨sum, -, haxis, -⟩ := post_absolute (hfollows.absolute h) hpost
  obtain ⟨m, hm⟩ := hfollows.1
  exact ⟨⟨sum, by rw [haxis, hm]⟩, hwithin.tracked (hfollows.absolute h) hpost⟩

end Posted

theorem Axis.StaysWithin.tracks (hstays : axis.StaysWithin events) (h : axis.EmulatesAbsolute) :
    axis.Tracks events := by
  obtain ⟨last, hrun⟩ := Posted.exists_run h hstays
  have hwithin := (Posted.run_within_iff h hrun).mpr hstays
  have hfollows : Throughout (Posted.Follows axis) Posted.post (.start axis) events :=
    hwithin.throughout (Posted.follows_start axis) id (Posted.Follows.post h)
  refine ⟨fun done t hdone hrun => (hfollows hdone hrun).2, ?_, fun _ _ => ⟨last, hrun⟩⟩
  intro done r t u before after hdone hbefore_run hpost hbefore hafter
  have ht := hfollows ((List.prefix_append _ _).trans hdone) hbefore_run
  obtain ⟨-, hlast⟩ := ht.2 before hbefore
  obtain ⟨m, hm⟩ := ht.1
  have habsolute := ht.absolute h
  obtain ⟨sum, hsum, -, hstate, -⟩ := Posted.post_absolute habsolute hpost
  rw [hstate after hafter, Axis.toInt_clip (.inr habsolute.mode_eq), hsum, hlast, hm]

-- The axis keeps its promise for every sequence of events that never pushes it past an end. For a
-- mapping that does not throw there are no others.
theorem Axis.staysWithin_tracks (axis : Axis) (h : axis.EmulatesAbsolute) (events : List RawValue) :
    (axis.StaysWithin events → axis.Tracks events) ∧
      (axis.raw.minimum.toInt ≤ axis.raw.maximum.toInt →
        (∀ value, axis.raw.Contains value → axis.Emits value) →
        ∀ t, Run Posted.post Always (.start axis) events t →
          axis.Tracks events → axis.StaysWithin events) := by
  refine ⟨fun hstays => hstays.tracks h, fun hrange hemits t hrun htracks => ?_⟩
  have hbreak : ∀ {t u : Posted} {r : RawValue}, t.Follows axis → ¬t.Within r →
      t.post r = some u → ¬u.Tracked := by
    intro t u r hfollows hwithin hpost htracked
    obtain ⟨m, hm⟩ := hfollows.1
    refine hwithin (.of_tracked (hfollows.absolute h) (by rw [hm]; exact hrange) ?_ hpost htracked)
    rw [hm]
    exact hemits
  rw [← Posted.run_within_iff h hrun]
  exact (hrun.throughout_iff (Posted.follows_start axis) And.right (Posted.Follows.post h) hbreak).mp
    fun hdone hrun => htracks.tracked _ _ hdone hrun

-- Ten steps either way.
def short : Axis :=
  { Axis.of_type .RELATIVE with mode := .ABSOLUTE, raw := ⟨0, -10, 10, 0, 0⟩ }

theorem short_tracks : short.Tracks [4, 6, -13] :=
  (Axis.staysWithin_tracks short ⟨rfl, rfl⟩ [4, 6, -13]).1 (by decide)

-- A range twice as long as which is the longest that fits.
def long : Axis :=
  { Axis.of_type .RELATIVE with mode := .ABSOLUTE, raw := ⟨0, 0, 2 ^ 30 - 1, 0, 0⟩ }

-- The axis goes on from where the event alone would have brought it, and steps that are no longer
-- than the range add up to more than an int32_t.
theorem short_not_tracks :
    (¬∀ axis : Axis, axis.EmulatesAbsolute → axis.raw.Spans 0 → ∀ events, axis.Tracks events) ∧
      ¬∀ axis : Axis, axis.EmulatesAbsolute → axis.raw.Spans 0 → ∀ events : List RawValue,
        (∀ r ∈ events, |r.toInt| ≤ axis.raw.maximum.toInt - axis.raw.minimum.toInt) →
        2 * (axis.raw.maximum.toInt - axis.raw.minimum.toInt) < 2 ^ 31 →
        ∃ t, Run Posted.post Always (.start axis) events t := by
  constructor
  · intro h
    have hrun : Run Posted.post Always (.start short) [15]
        ⟨{ short with m_last_raw_value := 15 }, some 10, 10⟩ := .next .start trivial (by decide)
    obtain ⟨-, hlast⟩ := (h short ⟨rfl, rfl⟩ (by decide) [15]).tracked _ _ List.prefix_rfl hrun _ rfl
    exact absurd hlast (by decide)
  · intro h
    have hsteps : ∀ r ∈ List.replicate 3 (2 ^ 30 - 1 : RawValue),
        |r.toInt| ≤ long.raw.maximum.toInt - long.raw.minimum.toInt := by
      intro r hr
      rw [List.eq_of_mem_replicate hr]
      decide
    obtain ⟨t, hrun⟩ := h long ⟨rfl, rfl⟩ (by decide) _ hsteps (by decide)
    have hsum := Posted.run_sum ⟨rfl, rfl⟩ hrun
    have hlt := t.axis.m_last_raw_value.toInt_lt
    rw [hsum] at hlt
    exact absurd hlt (by decide)

end RoboCrisp.Input
