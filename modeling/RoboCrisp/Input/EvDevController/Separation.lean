import RoboCrisp.Input.EvDevController.Sources

namespace RoboCrisp.Input

open RoboCrisp.Transition Machine

-- An axis or a button as an event source, or none at all.
inductive EventSource
  | axis (source : EvDevAxis)
  | button (source : EvDevButton)
  | missing

def EventSource.post : Machine EventSource RawValue Report := fun source raw_value =>
  match source with
  | .axis a => ((a.post raw_value).1, .axis (a.post raw_value).2.1, (a.post raw_value).2.2)
  | .button b => ((b.post raw_value).1, .button (b.post raw_value).2.1, (b.post raw_value).2.2)
  | .missing => ([], .missing, false)

namespace EvDevController

variable {c : EvDevController} {ev : InputEvent}

def view (c : EvDevController) : Source → EventSource
  | .axis i => c.m_axes[i]?.elim .missing .axis
  | .button i => c.m_buttons[i]?.elim .missing .button

-- Which source an event is posted to. This is settled once and for all by the constructor.
def route (c : EvDevController) (ev : InputEvent) : Option (Source × RawValue) :=
  if ev.type = EV_REL ∨ ev.type = EV_ABS then
    (find c.m_axis_map (ev.type, ev.code)).map fun i => (.axis i, ev.value)
  else if ev.type = EV_KEY then (find c.m_button_map ev.code).map fun i => (.button i, ev.value)
  else none

theorem route_congr {c' : EvDevController} (haxes : c'.m_axis_map = c.m_axis_map)
    (hbuttons : c'.m_button_map = c.m_button_map) : c'.route = c.route := by
  funext ev
  rw [route, route, haxes, hbuttons]

theorem route_post_axis (c : EvDevController) (i : Nat) (value : Int32) :
    (c.post_axis i value).2.1.route = c.route := by
  unfold post_axis
  split <;> exact route_congr rfl rfl

theorem route_post_button (c : EvDevController) (i : Nat) (value : Int32) :
    (c.post_button i value).2.1.route = c.route := by
  unfold post_button
  split <;> exact route_congr rfl rfl

-- What a turn of the loop does.
theorem handle_cases (c : EvDevController) (ev : InputEvent) :
    (c.route ev = none ∧ c.handle ev = ([], c, true)) ∨
      (∃ i, c.route ev = some (.axis i, ev.value) ∧ c.handle ev = c.post_axis i ev.value) ∨
      ∃ i, c.route ev = some (.button i, ev.value) ∧ c.handle ev = c.post_button i ev.value := by
  unfold route handle
  by_cases haxis : ev.type = EV_REL ∨ ev.type = EV_ABS
  · rw [if_pos haxis, if_pos haxis]
    cases hfind : find c.m_axis_map (ev.type, ev.code) with
    | none => exact .inl ⟨rfl, rfl⟩
    | some i => exact .inr (.inl ⟨i, rfl, rfl⟩)
  · rw [if_neg haxis, if_neg haxis]
    by_cases hbutton : ev.type = EV_KEY
    · rw [if_pos hbutton, if_pos hbutton]
      cases hfind : find c.m_button_map ev.code with
      | none => exact .inl ⟨rfl, rfl⟩
      | some i => exact .inr (.inr ⟨i, rfl, rfl⟩)
    · rw [if_neg hbutton, if_neg hbutton]
      exact .inl ⟨rfl, rfl⟩

theorem route_handle (c : EvDevController) (ev : InputEvent) : (c.handle ev).2.1.route = c.route := by
  rcases c.handle_cases ev with ⟨-, hhandle⟩ | ⟨i, -, hhandle⟩ | ⟨i, -, hhandle⟩
  · rw [hhandle]
  · rw [hhandle, route_post_axis]
  · rw [hhandle, route_post_button]

theorem view_set_axis {i : Nat} {old : EvDevAxis} (hi : c.m_axes[i]? = some old) (axis : EvDevAxis) :
    ({ c with m_axes := c.m_axes.set i axis } : EvDevController).view =
      Function.update c.view (.axis i) (.axis axis) := by
  obtain ⟨hlt, -⟩ := List.getElem?_eq_some_iff.mp hi
  funext source
  cases source with
  | axis j =>
      by_cases hj : j = i
      · subst hj
        simp [view, hlt]
      · rw [Function.update_of_ne (by simpa using hj)]
        simp [view, List.getElem?_set_ne (Ne.symm hj)]
  | button j =>
      rw [Function.update_of_ne (by simp)]
      rfl

theorem view_set_button {i : Nat} {old : EvDevButton} (hi : c.m_buttons[i]? = some old)
    (button : EvDevButton) : ({ c with m_buttons := c.m_buttons.set i button } : EvDevController).view =
      Function.update c.view (.button i) (.button button) := by
  obtain ⟨hlt, -⟩ := List.getElem?_eq_some_iff.mp hi
  funext source
  cases source with
  | axis j =>
      rw [Function.update_of_ne (by simp)]
      rfl
  | button j =>
      by_cases hj : j = i
      · subst hj
        simp [view, hlt]
      · rw [Function.update_of_ne (by simpa using hj)]
        simp [view, List.getElem?_set_ne (Ne.symm hj)]

theorem joint_post_axis (h : c.route ev = some (.axis i, ev.value)) :
    joint c.route (fun _ => EventSource.post) c.view ev =
      ((c.post_axis i ev.value).1, (c.post_axis i ev.value).2.1.view, (c.post_axis i ev.value).2.2) := by
  rw [joint_of_some h]
  unfold post_axis
  cases hi : c.m_axes[i]? with
  | none =>
      have hview : c.view (.axis i) = .missing := by simp [view, hi]
      rw [hview]
      refine Prod.ext rfl (Prod.ext ?_ rfl)
      exact Function.update_eq_self_iff.mpr hview.symm
  | some axis =>
      have hview : c.view (.axis i) = .axis axis := by simp [view, hi]
      rw [hview]
      exact Prod.ext rfl (Prod.ext (view_set_axis hi _).symm rfl)

theorem joint_post_button (h : c.route ev = some (.button i, ev.value)) :
    joint c.route (fun _ => EventSource.post) c.view ev =
      ((c.post_button i ev.value).1, (c.post_button i ev.value).2.1.view,
        (c.post_button i ev.value).2.2) := by
  rw [joint_of_some h]
  unfold post_button
  cases hi : c.m_buttons[i]? with
  | none =>
      have hview : c.view (.button i) = .missing := by simp [view, hi]
      rw [hview]
      refine Prod.ext rfl (Prod.ext ?_ rfl)
      exact Function.update_eq_self_iff.mpr hview.symm
  | some button =>
      have hview : c.view (.button i) = .button button := by simp [view, hi]
      rw [hview]
      exact Prod.ext rfl (Prod.ext (view_set_button hi _).symm rfl)

-- A turn of the loop is a step of the sources that stand side by side.
theorem joint_handle (c : EvDevController) (ev : InputEvent) :
    joint c.route (fun _ => EventSource.post) c.view ev =
      ((c.handle ev).1, (c.handle ev).2.1.view, (c.handle ev).2.2) := by
  rcases c.handle_cases ev with ⟨hroute, hhandle⟩ | ⟨i, hroute, hhandle⟩ | ⟨i, hroute, hhandle⟩
  · rw [joint_of_none hroute, hhandle]
  · rw [joint_post_axis hroute, hhandle]
  · rw [joint_post_button hroute, hhandle]

theorem run_joint (c : EvDevController) (events : List InputEvent) :
    (joint c.route fun _ => EventSource.post).run c.view events =
      ((c.run events).1, (c.run events).2.1.view, (c.run events).2.2) := by
  induction events generalizing c with
  | nil => rfl
  | cons ev events ih =>
      have hjoint := c.joint_handle ev
      have hrest := ih (c.handle ev).2.1
      rw [c.route_handle] at hrest
      cases hgoing : (c.handle ev).2.2 with
      | false =>
          have hrun : c.run (ev :: events) = c.handle ev := run_cons_of_false hgoing events
          rw [run_cons_of_false (by rw [hjoint, hgoing]), hjoint, hrun]
      | true =>
          have hrun : c.run (ev :: events) = ((c.handle ev).1 ++ ((c.handle ev).2.1.run events).1,
              ((c.handle ev).2.1.run events).2) := run_cons_of_true hgoing events
          rw [run_cons_of_true (by rw [hjoint, hgoing]), hjoint, hrest, hrun]

theorem idxOf?_eq_some_iff {κ : Type} [DecidableEq κ] {keys : List κ} (hnodup : keys.Nodup) {key : κ}
    {i : Nat} : keys.idxOf? key = some i ↔ keys[i]? = some key := by
  constructor
  · intro h
    obtain ⟨hlt, hkey, -⟩ := List.findIdx?_eq_some_iff_getElem.mp h
    rw [List.getElem?_eq_getElem hlt, eq_of_beq hkey]
  · intro h
    obtain ⟨hlt, hkey⟩ := List.getElem?_eq_some_iff.mp h
    refine List.findIdx?_eq_some_iff_getElem.mpr ⟨hlt, by simp [hkey], fun j hj => ?_⟩
    have hne : keys[j] ≠ key := by
      intro heq
      have hindex := (hnodup.getElem_inj_iff).mp (heq.trans hkey.symm)
      omega
    simpa using hne

theorem not_key_of_axis_type {type : UInt16} (h : type = EV_REL ∨ type = EV_ABS) : type ≠ EV_KEY := by
  rcases h with rfl | rfl
  · exact Device.rel_ne_key
  · exact Device.abs_ne_key

variable {d : Device}

-- An event is posted to the source that has its type and code.
theorem route_eq_some_iff (hbuilt : Built d c) {source : Source} {value : RawValue} :
    c.route ev = some (source, value) ↔ d.key source = some (ev.type, ev.code) ∧ value = ev.value := by
  unfold route
  by_cases haxis : ev.type = EV_REL ∨ ev.type = EV_ABS
  · rw [if_pos haxis, hbuilt.m_axis_map, Option.map_eq_some_iff]
    constructor
    · rintro ⟨i, hi, heq⟩
      obtain ⟨rfl, rfl⟩ := Prod.mk.inj heq
      have hget := (idxOf?_eq_some_iff d.nodup_axes).mp hi
      exact ⟨by rwa [List.getElem?_map] at hget, rfl⟩
    · rintro ⟨hkey, rfl⟩
      cases source with
      | axis i =>
          refine ⟨i, (idxOf?_eq_some_iff d.nodup_axes).mpr ?_, rfl⟩
          rwa [List.getElem?_map]
      | button i => exact absurd (Device.eq_key_of_button hkey) (not_key_of_axis_type haxis)
  · rw [if_neg haxis]
    by_cases hbutton : ev.type = EV_KEY
    · rw [if_pos hbutton, hbuilt.m_button_map, Option.map_eq_some_iff]
      constructor
      · rintro ⟨i, hi, heq⟩
        obtain ⟨rfl, rfl⟩ := Prod.mk.inj heq
        have hget := (idxOf?_eq_some_iff d.nodup_buttons).mp hi
        exact ⟨by simp [Device.key, hget, hbutton], rfl⟩
      · rintro ⟨hkey, rfl⟩
        cases source with
        | axis i => exact absurd hbutton (Device.ne_key_of_axis hkey)
        | button i =>
            obtain ⟨code, hcode, heq⟩ := Option.map_eq_some_iff.mp hkey
            obtain rfl := (Prod.mk.inj heq).2
            exact ⟨i, (idxOf?_eq_some_iff d.nodup_buttons).mpr hcode, rfl⟩
    · rw [if_neg hbutton]
      constructor
      · intro h
        contradiction
      · rintro ⟨hkey, -⟩
        cases source with
        | axis i =>
            have hmem : (ev.type, ev.code) ∈ d.axes.map AxisEntry.key :=
              List.mem_of_getElem? (by rwa [List.getElem?_map])
            rcases (Device.mem_axes_iff.mp hmem).2.2 with ⟨htype, -⟩ | ⟨htype, -⟩ | ⟨htype, -⟩
            · exact absurd (.inr htype) haxis
            · exact absurd (.inl htype) haxis
            · exact absurd htype hbutton
        | button i => exact absurd (Device.eq_key_of_button hkey) hbutton

-- The values among some events that have a source's type and code.
def values (d : Device) (source : Source) (events : List InputEvent) : List RawValue :=
  (events.filter fun ev => d.key source = some (ev.type, ev.code)).map InputEvent.value

theorem filterMap_own_route (hbuilt : Built d c) (source : Source) (events : List InputEvent) :
    (events.filterMap fun ev => own source (c.route ev)) = values d source events := by
  unfold values
  induction events with
  | nil => rfl
  | cons ev events ih =>
      by_cases hkey : d.key source = some (ev.type, ev.code)
      · have hroute := (route_eq_some_iff hbuilt).mpr ⟨hkey, rfl⟩
        rw [List.filterMap_cons_some (by rw [hroute, own_self]), List.filter_cons_of_pos (by simpa using hkey),
          List.map_cons, ih]
      · have hown : own source (c.route ev) = none := by
          cases hroute : c.route ev with
          | none => rfl
          | some p =>
              obtain ⟨other, value⟩ := p
              have hother := (route_eq_some_iff hbuilt).mp hroute
              by_cases heq : other = source
              · exact absurd (heq ▸ hother.1) hkey
              · exact own_of_ne heq value
        rw [List.filterMap_cons_none (by exact hown), List.filter_cons_of_neg (by simpa using hkey), ih]

-- Whatever has been set on the axes since, each axis and each button is told exactly its own events,
-- as if it were alone with them, up to one that can't be mapped and ends them all. Each kind of event
-- that the device has belongs to one of them.
theorem sources_separate {built : EvDevController} (hbuilt : construct d = some built)
    (haxes : c.m_axis_map = built.m_axis_map) (hbuttons : c.m_button_map = built.m_button_map)
    (events : List InputEvent) :
    (∀ type code, d.Supports type code ↔ ∃ source, d.key source = some (type, code) ∧
      ∀ other, d.key other = some (type, code) → other = source) ∧
    ∃ (taken : List InputEvent) (going : Source → Bool), taken <+: events ∧
      (∀ source, EventSource.post.run (c.view source) (values d source taken) =
        ((c.run events).1.filterMap (fun report => own source (some report)),
          (c.run events).2.1.view source, going source)) ∧
      ((c.run events).2.2 = true → taken = events ∧ ∀ source, going source = true) ∧
      ((c.run events).2.2 = false → ∃ source, ∀ other, going other = decide (other ≠ source)) := by
  refine ⟨fun type code => Device.supports_iff, ?_⟩
  obtain ⟨taken, going, hfront, hown, hall, hone⟩ :=
    exists_separates c.route (fun _ => EventSource.post) c.view events
  rw [run_joint] at hall hone
  refine ⟨taken, going, hfront, fun source => ?_, hall, hone⟩
  have hrun := hown source
  rw [run_joint, route_congr haxes hbuttons, filterMap_own_route (built_of_construct hbuilt)] at hrun
  exact hrun

end EvDevController

-- A button, and two axes of which the second rests in the middle.
def Device.gamepad : Device where
  has_event_type type := type = EV_ABS ∨ type = EV_KEY
  get_abs_info i :=
    if i = 0 then some ⟨0, -10, 10, 0⟩ else if i = 1 then some ⟨127, 0, 254, 0⟩ else none
  has_event_code type code := type = EV_KEY ∧ code = 304

namespace EvDevController

def gestures : List InputEvent :=
  [⟨EV_ABS, 0, 5⟩, ⟨EV_KEY, 304, 1⟩, ⟨EV_ABS, 1, 200⟩, ⟨EV_KEY, 304, 0⟩]

def gamepad : EvDevController where
  m_axes := [⟨0, .of_raw ⟨0, -10, 10, 0, 0⟩⟩, ⟨1, .of_raw ⟨127, 0, 254, 0, 0⟩⟩]
  m_buttons := [⟨304⟩]
  m_axis_map := [((EV_ABS, 0), 0), ((EV_ABS, 1), 1)]
  m_button_map := [(304, 0)]

theorem construct_gamepad : construct .gamepad = some gamepad := by decide +kernel

theorem sources_separate_gamepad : ∃ (taken : List InputEvent) (going : Bool),
    taken <+: gestures ∧ EventSource.post.run (.button ⟨304⟩) (values .gamepad (.button 0) taken) =
      ((gamepad.run gestures).1.filterMap (fun report => own (.button 0) (some report)),
        (gamepad.run gestures).2.1.view (.button 0), going) := by
  obtain ⟨-, taken, going, hfront, hown, -, -⟩ :=
    sources_separate construct_gamepad rfl rfl gestures
  exact ⟨taken, going (.button 0), hfront, hown (.button 0)⟩

end EvDevController

end RoboCrisp.Input
