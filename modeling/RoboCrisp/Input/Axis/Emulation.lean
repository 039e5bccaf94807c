import RoboCrisp.Input.Axis.Linear
import RoboCrisp.Transition.Run

namespace RoboCrisp.Input

open RoboCrisp.Transition

-- An axis with the raw value that its last post has emitted, and the sum of those emitted so far.
structure Posted where
  axis : Axis
  raw_value : Option RawValue
  total : Int
deriving DecidableEq

theorem bind_eq_ok_iff {α β : Type} {first : Except AxisFailure α} {next : α → Except AxisFailure β}
    {b : β} : first >>= next = .ok b ↔ ∃ a, first = .ok a ∧ next a = .ok b := by
  cases first with
  | error failure => simp
  | ok a => simp

theorem toInt_of_int32 {value : Int} {result : Int32} (h : int32 value = .ok result) :
    result.toInt = value := by
  unfold int32 at h
  split at h
  · rename_i hfits
    rw [← Except.ok.inj h, Int32.toInt_ofInt_of_le hfits.1 hfits.2]
  · cases h

namespace Posted

def start (axis : Axis) : Posted := ⟨axis, none, 0⟩

def emit (posted : Posted) (axis : Axis) (raw_value : RawValue) : Posted :=
  ⟨axis, some raw_value, posted.total + raw_value.toInt⟩

-- One post. It emits nothing when the mapping throws, but by then the axis has changed. A value
-- divided by zero is emitted like any other. Nothing comes after an addition that overflows.
def post (posted : Posted) (raw_value : RawValue) : Option Posted :=
  match posted.axis.emulate raw_value with
  | .error _ => none
  | .ok (emulated, axis) =>
      match posted.axis.post raw_value with
      | .ok (state, _) => some (posted.emit axis state.raw_value)
      | .error .division_by_zero => some (posted.emit axis (posted.axis.clip emulated))
      | .error _ => some ⟨axis, none, posted.total⟩

end Posted

def RawConfig.Spans (raw : RawConfig) (value : Int) : Prop :=
  raw.minimum.toInt ≤ value ∧ value ≤ raw.maximum.toInt

instance (raw : RawConfig) (value : Int) : Decidable (raw.Spans value) :=
  inferInstanceAs (Decidable (_ ∧ _))

namespace Axis

variable {axis axis' : Axis} {r emulated : RawValue}

-- The mapping does not throw. A quotient by zero is a value, though not a finite one.
def Emits (axis : Axis) (raw_value : RawValue) : Prop :=
  axis.map_method ≠ .NONE →
    (∃ x, axis.map raw_value = .ok x) ∨ axis.map raw_value = .error .division_by_zero

theorem clip_eq_iff (hmode : axis.type = .ABSOLUTE ∨ axis.mode = .ABSOLUTE)
    (hrange : axis.raw.minimum.toInt ≤ axis.raw.maximum.toInt) :
    (axis.clip r).toInt = r.toInt ↔ axis.raw.Spans r.toInt := by
  rw [toInt_clip hmode, RawConfig.Spans]
  omega

theorem emulate_keeps (h : axis.emulate r = .ok (emulated, axis')) :
    ∃ m, axis' = { axis with m_last_raw_value := m } := by
  unfold emulate at h
  split at h
  · split at h
    all_goals
      cases hint : int32 _ with
      | error failure =>
          rw [hint] at h
          cases h
      | ok value =>
          rw [hint] at h
          cases h
          exact ⟨_, rfl⟩
  · cases h
    exact ⟨axis.m_last_raw_value, rfl⟩

-- A post maps the clipped value.
theorem post_eq (h : axis.emulate r = .ok (emulated, axis')) :
    axis.post r = if axis.map_method ≠ .NONE then
        axis.map (axis.clip emulated) >>= fun value => .ok (⟨axis.clip emulated, value⟩, axis')
      else .ok (⟨axis.clip emulated, 0⟩, axis') := by
  obtain ⟨m, rfl⟩ := emulate_keeps h
  have hmap : ({ axis with m_last_raw_value := m } : Axis).map (axis.clip emulated) =
      axis.map (axis.clip emulated) := rfl
  rw [← hmap]
  simp only [Axis.post, h, ok_bind]
  rfl

end Axis

namespace Posted

variable {s t : Posted} {axis : Axis} {r : RawValue} {events : List RawValue}

-- Everything one post can do.
theorem post_inv (h : s.post r = some t) :
    ∃ emulated, s.axis.emulate r = .ok (emulated, t.axis) ∧
      ((s.axis.Emits (s.axis.clip emulated) ∧ t = s.emit t.axis (s.axis.clip emulated)) ∨
        (¬s.axis.Emits (s.axis.clip emulated) ∧ t = ⟨t.axis, none, s.total⟩)) := by
  unfold post at h
  cases hemulate : s.axis.emulate r with
  | error failure =>
      rw [hemulate] at h
      cases h
  | ok result =>
      obtain ⟨emulated, axis'⟩ := result
      simp only [hemulate, Axis.post_eq hemulate] at h
      by_cases hmethod : s.axis.map_method = .NONE
      · simp only [hmethod, ne_eq, not_true_eq_false, ite_false] at h
        obtain rfl := Option.some.inj h
        exact ⟨emulated, rfl, .inl ⟨fun hne => absurd hmethod hne, rfl⟩⟩
      · simp only [ne_eq, hmethod, not_false_eq_true, ite_true] at h
        cases hmap : s.axis.map (s.axis.clip emulated) with
        | ok x =>
            rw [hmap, ok_bind] at h
            obtain rfl := Option.some.inj h
            exact ⟨emulated, rfl, .inl ⟨fun _ => .inl ⟨x, hmap⟩, rfl⟩⟩
        | error failure =>
            have hemits : s.axis.Emits (s.axis.clip emulated) ↔ failure = .division_by_zero := by
              simp [Axis.Emits, hmethod, hmap]
            rw [hmap, error_bind] at h
            cases failure with
            | division_by_zero =>
                obtain rfl := Option.some.inj h
                exact ⟨emulated, rfl, .inl ⟨hemits.mpr rfl, rfl⟩⟩
            | overflow =>
                obtain rfl := Option.some.inj h
                exact ⟨emulated, rfl, .inr ⟨fun he => absurd (hemits.mp he) (by decide), rfl⟩⟩
            | runtime_error what =>
                obtain rfl := Option.some.inj h
                exact ⟨emulated, rfl, .inr ⟨fun he => absurd (hemits.mp he) nofun, rfl⟩⟩

theorem exists_post {result : RawValue × Axis} (h : s.axis.emulate r = .ok result) :
    ∃ t, s.post r = some t := by
  unfold post
  rw [h]
  obtain ⟨emulated, axis'⟩ := result
  cases s.axis.post r with
  | ok result => exact ⟨_, rfl⟩
  | error failure => cases failure <;> exact ⟨_, rfl⟩

-- A run only changes the last raw value.
theorem run_axis (hrun : Run post Always (start axis) events t) :
    ∃ m, t.axis = { axis with m_last_raw_value := m } := by
  let inv (t : Posted) : Prop := ∃ m, t.axis = { axis with m_last_raw_value := m }
  have hstart : inv (start axis) := ⟨axis.m_last_raw_value, rfl⟩
  refine hrun.invariant hstart ?_
  rintro t u r ⟨m, hm⟩ - hpost
  obtain ⟨emulated, hemulate, -⟩ := post_inv hpost
  obtain ⟨m', hm'⟩ := Axis.emulate_keeps hemulate
  exact ⟨m', by rw [hm', hm]⟩

end Posted

end RoboCrisp.Input
