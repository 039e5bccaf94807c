import Mathlib.Data.List.Nodup
import RoboCrisp.Input.EvDevController

namespace RoboCrisp.Input

open RoboCrisp.Transition

section UnorderedMap

variable {κ : Type} [DecidableEq κ] {map : List (κ × Nat)} {keys : List κ}

-- Each key leads to the place where it was first put.
def Indexed (map : List (κ × Nat)) (keys : List κ) : Prop := ∀ key, find map key = keys.idxOf? key

theorem idxOf?_append_singleton (keys : List κ) (key other : κ) :
    (keys ++ [key]).idxOf? other =
      (keys.idxOf? other).or (if key = other then some keys.length else none) := by
  rw [List.idxOf?, List.findIdx?_append, ← List.idxOf?]
  by_cases h : key = other <;> simp [h]

theorem Indexed.emplace (h : Indexed map keys) (key : κ) :
    Indexed (emplace map key keys.length) (keys ++ [key]) := by
  intro other
  rw [idxOf?_append_singleton, ← h other]
  unfold Input.emplace
  split
  · rename_i hany
    by_cases heq : key = other
    · subst heq
      obtain ⟨p, hmem, hp⟩ := List.any_eq_true.mp hany
      have hsome : (find map key).isSome := by
        rw [find, Option.isSome_map, List.find?_isSome]
        exact ⟨p, hmem, hp⟩
      obtain ⟨i, hi⟩ := Option.isSome_iff_exists.mp hsome
      rw [hi, Option.some_or]
    · rw [if_neg heq, Option.or_none]
  · rw [find, find, List.find?_append, Option.map_or]
    by_cases heq : key = other <;> simp [heq]

end UnorderedMap

namespace EvDevController

theorem foldl_add_axis (entries : List AxisEntry) {c : EvDevController} {keys : List (UInt16 × UInt16)}
    (hlength : keys.length = c.m_axes.length) (hindexed : Indexed c.m_axis_map keys) :
    (entries.foldl add_axis c).m_axes = c.m_axes ++ entries.map AxisEntry.axis ∧
      Indexed (entries.foldl add_axis c).m_axis_map (keys ++ entries.map AxisEntry.key) ∧
      (entries.foldl add_axis c).m_buttons = c.m_buttons ∧
      (entries.foldl add_axis c).m_button_map = c.m_button_map := by
  induction entries generalizing c keys with
  | nil =>
      simpa using hindexed
  | cons entry entries ih =>
      have hnext : Indexed (add_axis c entry).m_axis_map (keys ++ [entry.key]) := by
        simp only [add_axis, ← hlength]
        exact hindexed.emplace entry.key
      have hlength' : (keys ++ [entry.key]).length = (add_axis c entry).m_axes.length := by
        simp [add_axis, hlength]
      have hrest := ih hlength' hnext
      rw [List.append_assoc] at hrest
      simpa [add_axis] using hrest

theorem foldl_add_button (codes : List UInt16) {c : EvDevController} {keys : List UInt16}
    (hlength : keys.length = c.m_buttons.length) (hindexed : Indexed c.m_button_map keys) :
    (codes.foldl add_button c).m_buttons = c.m_buttons ++ codes.map (fun code => ⟨code.toUInt32⟩) ∧
      Indexed (codes.foldl add_button c).m_button_map (keys ++ codes) ∧
      (codes.foldl add_button c).m_axes = c.m_axes ∧
      (codes.foldl add_button c).m_axis_map = c.m_axis_map := by
  induction codes generalizing c keys with
  | nil =>
      simpa using hindexed
  | cons code codes ih =>
      have hnext : Indexed (add_button c code).m_button_map (keys ++ [code]) := by
        simp only [add_button, ← hlength]
        exact hindexed.emplace code
      have hlength' : (keys ++ [code]).length = (add_button c code).m_buttons.length := by
        simp [add_button, hlength]
      have hrest := ih hlength' hnext
      rw [List.append_assoc] at hrest
      simpa [add_button] using hrest

-- What the constructor leaves.
structure Built (d : Device) (c : EvDevController) : Prop where
  m_axes : c.m_axes = d.axes.map AxisEntry.axis
  m_buttons : c.m_buttons = d.buttons.map fun code => ⟨code.toUInt32⟩
  m_axis_map : Indexed c.m_axis_map (d.axes.map AxisEntry.key)
  m_button_map : Indexed c.m_button_map d.buttons

theorem built_of_construct {d : Device} {c : EvDevController} (h : construct d = some c) :
    Built d c := by
  unfold construct at h
  split at h
  · obtain rfl := Option.some.inj h
    have haxis_start : Indexed empty.m_axis_map [] := fun _ => rfl
    obtain ⟨hm_axes, hm_axis_map, hm_buttons, hm_button_map⟩ := foldl_add_axis d.axes rfl haxis_start
    have hbutton_start : Indexed (d.axes.foldl add_axis empty).m_button_map [] := by
      rw [hm_button_map]
      exact fun _ => rfl
    have hlength : ([] : List UInt16).length = (d.axes.foldl add_axis empty).m_buttons.length := by
      rw [hm_buttons]
      rfl
    obtain ⟨hbuttons, hbutton_map, haxes, haxis_map⟩ := foldl_add_button d.buttons hlength hbutton_start
    exact
      { m_axes := haxes.trans hm_axes
        m_buttons := by
          rw [hbuttons, hm_buttons]
          rfl
        m_axis_map := by
          rw [haxis_map]
          exact hm_axis_map
        m_button_map := hbutton_map }
  · contradiction

end EvDevController

namespace Device

variable {d : Device} {type code : UInt16}

-- The type and the code of a source's events.
def key (d : Device) : Source → Option (UInt16 × UInt16)
  | .axis i => d.axes[i]?.map AxisEntry.key
  | .button i => d.buttons[i]?.map (EV_KEY, ·)

-- An absolute axis that has one value only is no axis.
def Supports (d : Device) (type code : UInt16) : Prop :=
  d.has_event_type type = true ∧
    ((type = EV_ABS ∧ code.toNat < ABS_CNT ∧
        ∃ info, d.get_abs_info code.toNat = some info ∧ info.minimum ≠ info.maximum) ∨
      (type = EV_REL ∧ code.toNat < EV_CNT ∧ d.has_event_code EV_REL code.toNat = true) ∨
      (type = EV_KEY ∧ code.toNat < KEY_CNT ∧ d.has_event_code EV_KEY code.toNat = true))

theorem absolute_axis_eq_some_iff {i : Nat} {entry : AxisEntry} :
    d.absolute_axis i = some entry ↔ ∃ info, d.get_abs_info i = some info ∧
      info.minimum ≠ info.maximum ∧ entry = ⟨EV_ABS, .ofNat i, some info⟩ := by
  unfold absolute_axis
  cases d.get_abs_info i with
  | none => simp
  | some info =>
      by_cases h : info.minimum = info.maximum
      · simp [h]
      · simp [h, eq_comm]

theorem relative_axis_eq_some_iff {i : Nat} {entry : AxisEntry} :
    d.relative_axis i = some entry ↔
      d.has_event_code EV_REL i = true ∧ entry = ⟨EV_REL, .ofNat i, none⟩ := by
  unfold relative_axis
  by_cases h : d.has_event_code EV_REL i = true
  · simp [h, eq_comm]
  · simp [h]

theorem toNat_ofNat_of_lt {i : Nat} (h : i < KEY_CNT) : (UInt16.ofNat i).toNat = i := by
  rw [UInt16.toNat_ofNat', Nat.mod_eq_of_lt (Nat.lt_trans h (by decide))]

theorem abs_ne_key : EV_ABS ≠ EV_KEY := by decide

theorem rel_ne_key : EV_REL ≠ EV_KEY := by decide

theorem abs_ne_rel : EV_ABS ≠ EV_REL := by decide

theorem mem_axes_iff {key : UInt16 × UInt16} : key ∈ d.axes.map AxisEntry.key ↔
    key.1 ≠ EV_KEY ∧ d.Supports key.1 key.2 := by
  obtain ⟨type, code⟩ := key
  unfold axes Supports
  rw [List.map_append, List.mem_append]
  constructor
  · rintro (hmem | hmem)
    · split at hmem
      · rename_i htype
        obtain ⟨entry, hmem, hkey⟩ := List.mem_map.mp hmem
        obtain ⟨i, hi, hentry⟩ := List.mem_filterMap.mp hmem
        obtain ⟨info, hinfo, hne, rfl⟩ := absolute_axis_eq_some_iff.mp hentry
        obtain ⟨rfl, rfl⟩ := Prod.mk.inj hkey
        have hlt : i < ABS_CNT := List.mem_range.mp hi
        have hnat := toNat_ofNat_of_lt (Nat.lt_trans hlt (by decide))
        exact ⟨abs_ne_key, htype, .inl ⟨rfl, by rwa [hnat], info, by rwa [hnat], hne⟩⟩
      · simp at hmem
    · split at hmem
      · rename_i htype
        obtain ⟨entry, hmem, hkey⟩ := List.mem_map.mp hmem
        obtain ⟨i, hi, hentry⟩ := List.mem_filterMap.mp hmem
        obtain ⟨hcode, rfl⟩ := relative_axis_eq_some_iff.mp hentry
        obtain ⟨rfl, rfl⟩ := Prod.mk.inj hkey
        have hlt : i < EV_CNT := List.mem_range.mp hi
        have hnat := toNat_ofNat_of_lt (Nat.lt_trans hlt (by decide))
        exact ⟨rel_ne_key, htype, .inr (.inl ⟨rfl, by rwa [hnat], by rwa [hnat]⟩)⟩
      · simp at hmem
  · rintro ⟨hkey, htype, ⟨rfl, hlt, info, hinfo, hne⟩ | ⟨rfl, hlt, hcode⟩ | ⟨rfl, -, -⟩⟩
    · refine .inl (List.mem_map.mpr ⟨⟨EV_ABS, code, some info⟩, ?_, rfl⟩)
      rw [if_pos htype]
      refine List.mem_filterMap.mpr ⟨code.toNat, List.mem_range.mpr hlt, ?_⟩
      exact absolute_axis_eq_some_iff.mpr ⟨info, hinfo, hne, by rw [UInt16.ofNat_toNat]⟩
    · refine .inr (List.mem_map.mpr ⟨⟨EV_REL, code, none⟩, ?_, rfl⟩)
      rw [if_pos htype]
      refine List.mem_filterMap.mpr ⟨code.toNat, List.mem_range.mpr hlt, ?_⟩
      exact relative_axis_eq_some_iff.mpr ⟨hcode, by rw [UInt16.ofNat_toNat]⟩
    · exact absurd rfl hkey

theorem mem_buttons_iff : code ∈ d.buttons ↔ d.Supports EV_KEY code := by
  unfold buttons Supports
  by_cases htype : d.has_event_type EV_KEY = true
  · rw [if_pos htype, List.mem_map]
    constructor
    · rintro ⟨i, hmem, rfl⟩
      obtain ⟨hi, hcode⟩ := List.mem_filter.mp hmem
      have hlt : i < KEY_CNT := List.mem_range.mp hi
      have hnat := toNat_ofNat_of_lt hlt
      exact ⟨htype, .inr (.inr ⟨rfl, by rwa [hnat], by rwa [hnat]⟩)⟩
    · rintro ⟨-, ⟨habs, -⟩ | ⟨hrel, -⟩ | ⟨-, hlt, hcode⟩⟩
      · exact absurd habs.symm abs_ne_key
      · exact absurd hrel.symm rel_ne_key
      · exact ⟨code.toNat, List.mem_filter.mpr ⟨List.mem_range.mpr hlt, hcode⟩, UInt16.ofNat_toNat⟩
  · simp [htype]

-- The codes of what is found along a range are in its order.
theorem map_filterMap_sublist {α : Type} {f : Nat → Option α} {g : α → Nat} {l : List Nat}
    (h : ∀ i ∈ l, ∀ a ∈ f i, g a = i) : ((l.filterMap f).map g).Sublist l := by
  induction l with
  | nil => simp
  | cons i l ih =>
      have hrest := ih fun j hj => h j (List.mem_cons_of_mem _ hj)
      cases hi : f i with
      | none =>
          rw [List.filterMap_cons_none hi]
          exact hrest.cons i
      | some a =>
          rw [List.filterMap_cons_some hi, List.map_cons, h i List.mem_cons_self a hi]
          exact hrest.cons_cons i

theorem nodup_filterMap_code {f : Nat → Option AxisEntry} {n : Nat} (hn : n ≤ KEY_CNT)
    (h : ∀ i entry, f i = some entry → entry.code = .ofNat i) :
    (((List.range n).filterMap f).map AxisEntry.key).Nodup := by
  have hsublist : (((List.range n).filterMap f).map fun entry => entry.code.toNat).Sublist
      (List.range n) := by
    apply map_filterMap_sublist
    intro i hi entry hentry
    rw [h i entry hentry, toNat_ofNat_of_lt (Nat.lt_of_lt_of_le (List.mem_range.mp hi) hn)]
  have hnodup := hsublist.nodup List.nodup_range
  refine List.Nodup.of_map (fun key : UInt16 × UInt16 => key.2.toNat) ?_
  rwa [List.map_map]

theorem nodup_axes (d : Device) : (d.axes.map AxisEntry.key).Nodup := by
  unfold axes
  rw [List.map_append, List.nodup_append]
  refine ⟨?_, ?_, ?_⟩
  · split
    · refine nodup_filterMap_code (by decide) fun i entry h => ?_
      obtain ⟨info, -, -, rfl⟩ := absolute_axis_eq_some_iff.mp h
      rfl
    · simp
  · split
    · refine nodup_filterMap_code (by decide) fun i entry h => ?_
      obtain ⟨-, rfl⟩ := relative_axis_eq_some_iff.mp h
      rfl
    · simp
  · intro key habs key' hrel
    split at habs
    · split at hrel
      · obtain ⟨entry, hmem, rfl⟩ := List.mem_map.mp habs
        obtain ⟨i, -, hentry⟩ := List.mem_filterMap.mp hmem
        obtain ⟨info, -, -, rfl⟩ := absolute_axis_eq_some_iff.mp hentry
        obtain ⟨entry, hmem, rfl⟩ := List.mem_map.mp hrel
        obtain ⟨i, -, hentry⟩ := List.mem_filterMap.mp hmem
        obtain ⟨-, rfl⟩ := relative_axis_eq_some_iff.mp hentry
        exact fun heq => abs_ne_rel (congrArg Prod.fst heq)
      · simp at hrel
    · simp at habs

theorem nodup_buttons (d : Device) : d.buttons.Nodup := by
  unfold buttons
  split
  · refine List.Nodup.of_map UInt16.toNat ?_
    rw [List.map_map]
    have hmap : ((List.range KEY_CNT).filter (d.has_event_code EV_KEY)).map (UInt16.toNat ∘ UInt16.ofNat) =
        (List.range KEY_CNT).filter (d.has_event_code EV_KEY) := by
      conv_rhs => rw [← List.map_id ((List.range KEY_CNT).filter (d.has_event_code EV_KEY))]
      apply List.map_congr_left
      intro i hi
      exact toNat_ofNat_of_lt (List.mem_range.mp (List.mem_of_mem_filter hi))
    rw [hmap]
    exact List.nodup_range.filter _
  · simp

theorem ne_key_of_axis {i : Nat} (h : d.key (.axis i) = some (type, code)) : type ≠ EV_KEY := by
  have hmem : (type, code) ∈ d.axes.map AxisEntry.key :=
    List.mem_of_getElem? (by rwa [List.getElem?_map])
  exact (mem_axes_iff.mp hmem).1

theorem eq_key_of_button {i : Nat} (h : d.key (.button i) = some (type, code)) : type = EV_KEY := by
  obtain ⟨code', -, heq⟩ := Option.map_eq_some_iff.mp h
  exact (Prod.mk.inj heq).1.symm

theorem eq_of_axis {i j : Nat} {k : UInt16 × UInt16} (hi : d.key (.axis i) = some k)
    (hj : d.key (.axis j) = some k) : i = j := by
  have hi' : (d.axes.map AxisEntry.key)[i]? = some k := by rwa [List.getElem?_map]
  have hj' : (d.axes.map AxisEntry.key)[j]? = some k := by rwa [List.getElem?_map]
  obtain ⟨hlt, -⟩ := List.getElem?_eq_some_iff.mp hi'
  exact (List.getElem?_inj hlt d.nodup_axes).mp (hi'.trans hj'.symm)

theorem eq_of_button {i j : Nat} {k : UInt16 × UInt16} (hi : d.key (.button i) = some k)
    (hj : d.key (.button j) = some k) : i = j := by
  obtain ⟨code, hcode, rfl⟩ := Option.map_eq_some_iff.mp hi
  obtain ⟨code', hcode', heq⟩ := Option.map_eq_some_iff.mp hj
  obtain rfl := (Prod.mk.inj heq).2
  obtain ⟨hlt, -⟩ := List.getElem?_eq_some_iff.mp hcode
  exact (List.getElem?_inj hlt d.nodup_buttons).mp (hcode.trans hcode'.symm)

theorem supports_of_key {source : Source} (h : d.key source = some (type, code)) : d.Supports type code := by
  cases source with
  | axis i =>
      have hmem : (type, code) ∈ d.axes.map AxisEntry.key :=
        List.mem_of_getElem? (by rwa [List.getElem?_map])
      exact (mem_axes_iff.mp hmem).2
  | button i =>
      obtain rfl := eq_key_of_button h
      obtain ⟨code', hcode, heq⟩ := Option.map_eq_some_iff.mp h
      obtain rfl := (Prod.mk.inj heq).2
      exact mem_buttons_iff.mp (List.mem_of_getElem? hcode)

-- A supported event has one source.
theorem supports_iff : d.Supports type code ↔ ∃ source, d.key source = some (type, code) ∧
    ∀ other, d.key other = some (type, code) → other = source := by
  constructor
  · intro h
    by_cases htype : type = EV_KEY
    · subst htype
      obtain ⟨i, hi⟩ := List.getElem?_of_mem (mem_buttons_iff.mpr h)
      have hkey : d.key (.button i) = some (EV_KEY, code) := by simp [key, hi]
      refine ⟨.button i, hkey, fun other hother => ?_⟩
      cases other with
      | axis j => exact absurd rfl (ne_key_of_axis hother)
      | button j => rw [eq_of_button hkey hother]
    · have hmem : (type, code) ∈ d.axes.map AxisEntry.key := mem_axes_iff.mpr ⟨htype, h⟩
      obtain ⟨i, hi⟩ := List.getElem?_of_mem hmem
      rw [List.getElem?_map] at hi
      refine ⟨.axis i, hi, fun other hother => ?_⟩
      cases other with
      | axis j => rw [eq_of_axis hi hother]
      | button j => exact absurd (eq_key_of_button hother) htype
  · rintro ⟨source, hsource, -⟩
    exact supports_of_key hsource

end Device

end RoboCrisp.Input
