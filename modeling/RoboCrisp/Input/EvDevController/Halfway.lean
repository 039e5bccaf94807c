import RoboCrisp.Input.Axis.Linear
import RoboCrisp.Input.EvDevController.Separation

namespace RoboCrisp.Input

open RoboCrisp.Transition Machine

namespace RawConfig

-- The neutral point lies in the middle of the range, but it is not zero.
def Halfway (raw : RawConfig) : Prop :=
  raw.minimum.toInt + raw.maximum.toInt = 2 * raw.neutral.toInt ∧ raw.neutral.toInt ≠ 0

variable {raw : RawConfig} {raw_value : RawValue}

theorem Ranged.linear_of_halfway (h : raw.Ranged) (hnegatable : raw.minimum.toInt ≠ -2 ^ 31)
    (hhalfway : raw.Halfway) (hr : raw.Contains raw_value) : raw.linear raw_value =
      .error (.runtime_error "Unhandled edge case in Axis::map(RawValue)") := by
  obtain ⟨hsum, hneutral⟩ := hhalfway
  have hlt := h.minimum_lt
  simp only [h.linear_eq hr]
  rw [if_neg hnegatable, if_neg (by omega), if_neg (by omega), if_neg (by omega)]

-- Otherwise there is a quotient, of a number that may be zero.
theorem Ranged.linear_of_not_halfway (h : raw.Ranged) (hnegatable : raw.minimum.toInt ≠ -2 ^ 31)
    (hhalfway : ¬raw.Halfway) (hr : raw.Contains raw_value) :
    ∃ x y, raw.linear raw_value = divide x y := by
  simp only [h.linear_eq hr]
  rw [if_neg hnegatable]
  by_cases hfirst : raw.maximum.toInt = -raw.minimum.toInt ∨ raw.minimum.toInt = raw.neutral.toInt
  · rw [if_pos hfirst]
    exact ⟨_, _, rfl⟩
  rw [if_neg hfirst]
  by_cases hlast : raw.maximum.toInt = raw.neutral.toInt
  · rw [if_pos hlast]
    exact ⟨_, _, rfl⟩
  rw [if_neg hlast, if_pos]
  · exact ⟨_, _, rfl⟩
  · intro hcentred
    exact hhalfway ⟨by omega, by omega⟩

end RawConfig

namespace EvDevAxis

variable {raw : RawConfig} {raw_value : RawValue}

theorem post_of_raw (raw : RawConfig) (raw_value : RawValue) : (Axis.of_raw raw).post raw_value =
    (raw.linear ((Axis.of_raw raw).clip raw_value) >>= fun x =>
      .ok (⟨(Axis.of_raw raw).clip raw_value, x⟩, .of_raw raw)) := by
  have hemulate : (Axis.of_raw raw).emulate raw_value = .ok (raw_value, .of_raw raw) := rfl
  have hmethod : (Axis.of_raw raw).map_method ≠ .NONE := by
    intro hnone
    contradiction
  have hmap : (Axis.of_raw raw).map ((Axis.of_raw raw).clip raw_value) =
      raw.linear ((Axis.of_raw raw).clip raw_value) := by
    apply Axis.map_eq_linear
    intro hpolynomial
    contradiction
  rw [Axis.post, hemulate, ok_bind]
  simp only [if_pos hmethod, hmap]

theorem post_of_raw_of_error (id : UInt32) {what : String}
    (h : raw.linear ((Axis.of_raw raw).clip raw_value) = .error (.runtime_error what)) :
    EvDevAxis.post ⟨id, .of_raw raw⟩ raw_value = ([], ⟨id, .of_raw raw⟩, false) := by
  have hemulate : (Axis.of_raw raw).emulate raw_value = .ok (raw_value, .of_raw raw) := rfl
  have hpost : (Axis.of_raw raw).post raw_value = .error (.runtime_error what) := by
    rw [post_of_raw, h, error_bind]
  simp only [EvDevAxis.post, hemulate, hpost]

-- A quotient by zero is no number, but it is no exception either.
theorem post_of_raw_of_divide (id : UInt32) {x y : Value}
    (h : raw.linear ((Axis.of_raw raw).clip raw_value) = divide x y) :
    ∃ report, EvDevAxis.post ⟨id, .of_raw raw⟩ raw_value = ([report], ⟨id, .of_raw raw⟩, true) := by
  have hemulate : (Axis.of_raw raw).emulate raw_value = .ok (raw_value, .of_raw raw) := rfl
  by_cases hy : y = 0
  · have hpost : (Axis.of_raw raw).post raw_value = .error .division_by_zero := by
      rw [post_of_raw, h, divide, if_pos hy, error_bind]
    refine ⟨.not_finite ((Axis.of_raw raw).clip raw_value), ?_⟩
    simp only [EvDevAxis.post, hemulate, hpost]
  · have hpost : (Axis.of_raw raw).post raw_value =
        .ok (⟨(Axis.of_raw raw).clip raw_value, x / y⟩, .of_raw raw) := by
      rw [post_of_raw, h, divide_of_ne_zero x hy, ok_bind]
    refine ⟨.axis ⟨(Axis.of_raw raw).clip raw_value, x / y⟩, ?_⟩
    simp only [EvDevAxis.post, hemulate, hpost]

theorem post_of_type (id : UInt32) (raw_value : RawValue) :
    EvDevAxis.post ⟨id, .of_type .RELATIVE⟩ raw_value =
      ([.axis ⟨raw_value, 0⟩], ⟨id, .of_type .RELATIVE⟩, true) := rfl

end EvDevAxis

namespace AbsInfo

-- The value at the time of opening becomes the neutral point.
def raw (info : AbsInfo) : RawConfig :=
  ⟨info.value, info.minimum, info.maximum, info.flat, info.flat⟩

-- The value lies in a range whose width fits an int32_t, as the negative of its minimum does.
structure Fits (info : AbsInfo) : Prop where
  ranged : info.raw.Ranged
  negatable : info.minimum.toInt ≠ -2 ^ 31

end AbsInfo

namespace Device

variable {d : Device} {ev : InputEvent} {entry : AxisEntry}

-- The axes that the constructor makes for the device.
def Fits (d : Device) : Prop := ∀ entry ∈ d.axes, ∀ info, entry.absinfo = some info → info.Fits

-- An event of an absolute axis that lay halfway between its ends when the device was opened.
def Unmappable (d : Device) (ev : InputEvent) : Prop :=
  ev.type = EV_ABS ∧ d.Supports ev.type ev.code ∧
    ∃ info, d.get_abs_info ev.code.toNat = some info ∧ info.raw.Halfway

theorem mem_axes_cases (h : entry ∈ d.axes) :
    (∃ info, d.get_abs_info entry.code.toNat = some info ∧
        entry = ⟨EV_ABS, entry.code, some info⟩) ∨ entry = ⟨EV_REL, entry.code, none⟩ := by
  unfold axes at h
  rcases List.mem_append.mp h with habs | hrel
  · split at habs
    · obtain ⟨i, hi, hentry⟩ := List.mem_filterMap.mp habs
      obtain ⟨info, hinfo, -, rfl⟩ := absolute_axis_eq_some_iff.mp hentry
      have hlt : i < ABS_CNT := List.mem_range.mp hi
      have hnat := toNat_ofNat_of_lt (Nat.lt_trans hlt (by decide))
      exact .inl ⟨info, by rwa [hnat], rfl⟩
    · simp at habs
  · split at hrel
    · obtain ⟨i, -, hentry⟩ := List.mem_filterMap.mp hrel
      obtain ⟨-, rfl⟩ := relative_axis_eq_some_iff.mp hentry
      exact .inr rfl
    · simp at hrel

-- An axis says one thing about an event and stays as it is, unless it can't map it.
theorem post_axis (hfits : d.Fits) (hmem : entry ∈ d.axes) (hkey : entry.key = (ev.type, ev.code)) :
    (d.Unmappable ev → entry.axis.post ev.value = ([], entry.axis, false)) ∧
      (¬d.Unmappable ev → ∃ report, entry.axis.post ev.value = ([report], entry.axis, true)) := by
  obtain ⟨htype, hcode⟩ := Prod.mk.inj hkey
  rcases mem_axes_cases hmem with ⟨info, hinfo, heq⟩ | heq
  · have hsupports : d.Supports ev.type ev.code :=
      (mem_axes_iff.mp (List.mem_map.mpr ⟨entry, hmem, hkey⟩)).2
    have habs : ev.type = EV_ABS := by rw [← htype, heq]
    rw [hcode] at hinfo
    have habsinfo : entry.absinfo = some info := by rw [heq]
    obtain ⟨hranged, hnegatable⟩ := hfits entry hmem info habsinfo
    have haxis : entry.axis = ⟨entry.code.toUInt32, .of_raw info.raw⟩ := by
      rw [heq]
      rfl
    have hcontains : info.raw.Contains ((Axis.of_raw info.raw).clip ev.value) := by
      apply Axis.contains_clip
      · exact hranged.minimum_lt.le
      · exact .inl rfl
    rw [haxis]
    constructor
    · rintro ⟨-, -, info', hinfo', hhalfway⟩
      obtain rfl := Option.some.inj (hinfo'.symm.trans hinfo)
      exact EvDevAxis.post_of_raw_of_error _ (hranged.linear_of_halfway hnegatable hhalfway hcontains)
    · intro hmappable
      have hhalfway : ¬info.raw.Halfway := fun h => hmappable ⟨habs, hsupports, info, hinfo, h⟩
      obtain ⟨x, y, hlinear⟩ := hranged.linear_of_not_halfway hnegatable hhalfway hcontains
      exact EvDevAxis.post_of_raw_of_divide _ hlinear
  · have hrel : ev.type = EV_REL := by rw [← htype, heq]
    constructor
    · rintro ⟨habs, -⟩
      exact absurd (habs.symm.trans hrel) abs_ne_rel
    · intro _
      rw [heq]
      exact ⟨_, EvDevAxis.post_of_type _ _⟩

end Device

namespace EvDevController

variable {d : Device} {c : EvDevController} {ev : InputEvent} {source : Source}

theorem post_axis_of_still {i : Nat} {axis : EvDevAxis} (hi : c.m_axes[i]? = some axis)
    {value : RawValue} {reports : List Report} {going : Bool}
    (hpost : axis.post value = (reports, axis, going)) :
    c.post_axis i value = (reports.map (.axis i, ·), c, going) := by
  obtain ⟨hlt, hget⟩ := List.getElem?_eq_some_iff.mp hi
  have hset : c.m_axes.set i axis = c.m_axes := by rw [← hget, List.set_getElem_self]
  unfold post_axis
  simp only [hi, hpost, hset]

theorem post_button_eq {i : Nat} {button : EvDevButton} (hi : c.m_buttons[i]? = some button)
    (value : RawValue) :
    c.post_button i value = ([(.button i, .button value (Button.map value))], c, true) := by
  obtain ⟨hlt, hget⟩ := List.getElem?_eq_some_iff.mp hi
  have hset : c.m_buttons.set i button = c.m_buttons := by rw [← hget, List.set_getElem_self]
  unfold post_button
  simp only [hi, EvDevButton.post, hset]
  rfl

-- A turn of the loop, for an event that a source has.
theorem handle_of_key (hbuilt : Built d c) (hfits : d.Fits) (hkey : d.key source = some (ev.type, ev.code)) :
    (d.Unmappable ev → c.handle ev = ([], c, false)) ∧
      (¬d.Unmappable ev → ∃ report, c.handle ev = ([(source, report)], c, true)) := by
  have hsome := (route_eq_some_iff hbuilt).mpr ⟨hkey, rfl⟩
  rcases c.handle_cases ev with ⟨hroute, -⟩ | ⟨i, hroute, hhandle⟩ | ⟨i, hroute, hhandle⟩
  · rw [hroute] at hsome
    contradiction
  · obtain rfl := (Prod.mk.inj (Option.some.inj (hsome.symm.trans hroute))).1
    obtain ⟨entry, hentry, hentry_key⟩ := Option.map_eq_some_iff.mp hkey
    have hget : c.m_axes[i]? = some entry.axis := by rw [hbuilt.m_axes, List.getElem?_map, hentry, Option.map_some]
    obtain ⟨hends, hgoes⟩ := Device.post_axis hfits (List.mem_of_getElem? hentry) hentry_key
    rw [hhandle]
    constructor
    · intro h
      exact post_axis_of_still hget (hends h)
    · intro h
      obtain ⟨report, hpost⟩ := hgoes h
      exact ⟨report, post_axis_of_still hget hpost⟩
  · obtain rfl := (Prod.mk.inj (Option.some.inj (hsome.symm.trans hroute))).1
    obtain ⟨code, hcode, -⟩ := Option.map_eq_some_iff.mp hkey
    have hget : c.m_buttons[i]? = some ⟨code.toUInt32⟩ := by
      rw [hbuilt.m_buttons, List.getElem?_map, hcode, Option.map_some]
    rw [hhandle]
    constructor
    · rintro ⟨habs, -⟩
      exact absurd ((Device.eq_key_of_button hkey).symm.trans habs) Device.abs_ne_key.symm
    · intro _
      exact ⟨_, post_button_eq hget _⟩

theorem handle_of_not_supports (hbuilt : Built d c) (h : ¬d.Supports ev.type ev.code) :
    c.handle ev = ([], c, true) := by
  have hnone {source : Source} : c.route ev ≠ some (source, ev.value) := by
    intro hroute
    exact h (Device.supports_of_key ((route_eq_some_iff hbuilt).mp hroute).1)
  rcases c.handle_cases ev with ⟨-, hhandle⟩ | ⟨i, hroute, -⟩ | ⟨i, hroute, -⟩
  · exact hhandle
  · exact absurd hroute hnone
  · exact absurd hroute hnone

-- As long as no axis is moved that lay halfway when it was opened, a new controller stays as it is
-- and tells each event to the hooks of its source, once. The first move of such an axis ends run().
theorem run_of_construct (hconstruct : construct d = some c) (hfits : d.Fits) :
    (∀ ev source, ¬d.Unmappable ev → d.key source = some (ev.type, ev.code) →
        ∃ report, (c.handle ev).1 = [(source, report)]) ∧
      (∀ ev, ¬d.Supports ev.type ev.code → (c.handle ev).1 = []) ∧
      (∀ events, (∀ ev ∈ events, ¬d.Unmappable ev) →
        c.run events = (events.flatMap fun ev => (c.handle ev).1, c, true)) ∧
      ∀ events ev rest, (∀ ev ∈ events, ¬d.Unmappable ev) → d.Unmappable ev →
        c.run (events ++ ev :: rest) = (events.flatMap fun ev => (c.handle ev).1, c, false) := by
  have hbuilt := built_of_construct hconstruct
  have hstill {ev : InputEvent} (h : ¬d.Unmappable ev) : (c.handle ev).2 = (c, true) := by
    by_cases hsupports : d.Supports ev.type ev.code
    · obtain ⟨source, hkey, -⟩ := Device.supports_iff.mp hsupports
      obtain ⟨report, hhandle⟩ := (handle_of_key hbuilt hfits hkey).2 h
      rw [hhandle]
    · rw [handle_of_not_supports hbuilt hsupports]
  refine ⟨fun ev source h hkey => ?_, fun ev h => ?_, fun events h => ?_, fun events ev rest h hev => ?_⟩
  · obtain ⟨report, hhandle⟩ := (handle_of_key hbuilt hfits hkey).2 h
    exact ⟨report, by rw [hhandle]⟩
  · rw [handle_of_not_supports hbuilt h]
  · exact run_of_still fun ev hev => hstill (h ev hev)
  · obtain ⟨source, hkey, -⟩ := Device.supports_iff.mp hev.2.1
    have hhandle := (handle_of_key hbuilt hfits hkey).1 hev
    have hrun := run_append_of_still (fun ev hev => hstill (h ev hev)) (by rw [hhandle]) rest
    rw [hhandle, List.append_nil] at hrun
    exact hrun

theorem fits_gamepad : Device.gamepad.Fits := by
  intro entry hmem info habsinfo
  rcases Device.mem_axes_cases hmem with ⟨own, hown, heq⟩ | heq
  · obtain rfl : own = info := by
      rw [heq] at habsinfo
      exact Option.some.inj habsinfo
    simp only [Device.gamepad] at hown
    split at hown
    · obtain rfl := Option.some.inj hown
      exact ⟨⟨by decide, by decide, by decide, by decide⟩, by decide⟩
    · split at hown
      · obtain rfl := Option.some.inj hown
        exact ⟨⟨by decide, by decide, by decide, by decide⟩, by decide⟩
      · contradiction
  · rw [heq] at habsinfo
    contradiction

-- The second axis is moved, and the button is let go unnoticed.
theorem run_of_construct_gamepad : gamepad.run gestures =
    ([(.axis 0, .axis ⟨5, 1 / 2⟩), (.button 0, .button 1 .PRESSED)], gamepad, false) := by
  obtain ⟨-, -, -, hends⟩ := run_of_construct construct_gamepad fits_gamepad
  have hfirst : ¬Device.gamepad.Unmappable ⟨EV_ABS, 0, 5⟩ := by
    rintro ⟨-, -, info, hinfo, hhalfway⟩
    obtain rfl := Option.some.inj hinfo
    exact hhalfway.2 (by decide)
  have hsecond : ¬Device.gamepad.Unmappable ⟨EV_KEY, 304, 1⟩ := by
    rintro ⟨htype, -⟩
    exact absurd htype (by decide)
  have hthird : Device.gamepad.Unmappable ⟨EV_ABS, 1, 200⟩ :=
    ⟨rfl, ⟨by decide, .inl ⟨rfl, by decide, _, rfl, by decide⟩⟩, _, rfl, by decide, by decide⟩
  have hrun := hends [⟨EV_ABS, 0, 5⟩, ⟨EV_KEY, 304, 1⟩] ⟨EV_ABS, 1, 200⟩ [⟨EV_KEY, 304, 0⟩]
    (by simp [hfirst, hsecond]) hthird
  have hreports : [⟨EV_ABS, 0, 5⟩, ⟨EV_KEY, 304, 1⟩].flatMap (fun ev => (gamepad.handle ev).1) =
      [(.axis 0, .axis ⟨5, 1 / 2⟩), (.button 0, .button 1 .PRESSED)] := by
    decide +kernel
  rwa [hreports] at hrun

end EvDevController

end RoboCrisp.Input
