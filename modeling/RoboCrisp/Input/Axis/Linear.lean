import Mathlib.Algebra.Order.Field.Basic
import Mathlib.Tactic.Ring
import RoboCrisp.Input.Axis

namespace RoboCrisp.Input

theorem int32_of_fits {value : Int} (hlower : -2 ^ 31 ≤ value) (hupper : value < 2 ^ 31) :
    ∃ result, int32 value = .ok result ∧ result.toInt = value :=
  ⟨Int32.ofInt value, if_pos ⟨hlower, hupper⟩, Int32.toInt_ofInt_of_le hlower hupper⟩

theorem divide_of_ne_zero (x : Value) {y : Value} (hy : y ≠ 0) : divide x y = .ok (x / y) :=
  if_neg hy

@[simp] theorem ok_bind {α β : Type} (a : α) (f : α → Except AxisFailure β) :
    (Except.ok a >>= f) = f a := rfl

@[simp] theorem error_bind {α β : Type} (e : AxisFailure) (f : α → Except AxisFailure β) :
    (Except.error e >>= f) = .error e := rfl

namespace RawConfig

-- Every difference of two raw values in the range fits an int32_t.
structure Ranged (raw : RawConfig) : Prop where
  neutral_ge : raw.minimum.toInt ≤ raw.neutral.toInt
  neutral_le : raw.neutral.toInt ≤ raw.maximum.toInt
  minimum_lt : raw.minimum.toInt < raw.maximum.toInt
  fits : raw.maximum.toInt - raw.minimum.toInt < 2 ^ 31

def Contains (raw : RawConfig) (raw_value : RawValue) : Prop :=
  raw.minimum.toInt ≤ raw_value.toInt ∧ raw_value.toInt ≤ raw.maximum.toInt

instance (raw : RawConfig) (raw_value : RawValue) : Decidable (raw.Contains raw_value) :=
  inferInstanceAs (Decidable (_ ∧ _))

-- The mapping divides the distance from the neutral point by `scale`.
def Scaled (raw : RawConfig) (scale : Int) : Prop :=
  ∀ raw_value, raw.Contains raw_value →
    raw.linear raw_value = divide ((raw_value.toInt - raw.neutral.toInt : Int) : Value) scale

variable {raw : RawConfig}

theorem Ranged.contains_neutral (h : raw.Ranged) : raw.Contains raw.neutral :=
  ⟨h.neutral_ge, h.neutral_le⟩

theorem Ranged.contains_minimum (h : raw.Ranged) : raw.Contains raw.minimum :=
  ⟨le_rfl, h.minimum_lt.le⟩

-- The cascade of cases in terms of integers, once the differences are known to fit.
theorem Ranged.linear_eq (h : raw.Ranged) {raw_value : RawValue} (hr : raw.Contains raw_value) :
    raw.linear raw_value =
      let val : Int := raw_value.toInt - raw.neutral.toInt
      let max : Int := raw.maximum.toInt - raw.neutral.toInt
      let min : Int := raw.minimum.toInt - raw.neutral.toInt
      if raw.minimum.toInt = -2 ^ 31 then .error .overflow
      else if raw.maximum.toInt = -raw.minimum.toInt ∨ raw.minimum.toInt = raw.neutral.toInt then
        divide val max
      else if raw.maximum.toInt = raw.neutral.toInt then divide val min
      else if max ≠ -min then divide val (Max.max max (-min) : Int)
      else .error (.runtime_error "Unhandled edge case in Axis::map(RawValue)") := by
  obtain ⟨hge, hle, hlt, hfits⟩ := h
  obtain ⟨hrmin, hrmax⟩ := hr
  have hlow := raw.minimum.le_toInt
  have hhigh := raw.minimum.toInt_lt
  obtain ⟨max, emax, vmax⟩ := int32_of_fits
    (by omega : -2 ^ 31 ≤ raw.maximum.toInt - raw.neutral.toInt) (by omega)
  obtain ⟨min, emin, vmin⟩ := int32_of_fits
    (by omega : -2 ^ 31 ≤ raw.minimum.toInt - raw.neutral.toInt) (by omega)
  obtain ⟨val, eval, vval⟩ := int32_of_fits
    (by omega : -2 ^ 31 ≤ raw_value.toInt - raw.neutral.toInt) (by omega)
  have hmax : |max.toInt| = max.toInt := abs_of_nonneg (by omega)
  have hmin : |min.toInt| = -min.toInt := abs_of_nonpos (by omega)
  simp only [linear, emax, emin, eval, ok_bind, hmax, hmin]
  by_cases hfirst : raw.minimum.toInt = -2 ^ 31
  · have hover : int32 (-raw.minimum.toInt) = .error .overflow := if_neg (by omega)
    rw [hover, if_pos hfirst, error_bind]
  rw [if_neg hfirst]
  obtain ⟨opposite, eopposite, vopposite⟩ := int32_of_fits
    (by omega : -2 ^ 31 ≤ -raw.minimum.toInt) (by omega)
  obtain ⟨abs_max, eabs_max, vabs_max⟩ := int32_of_fits
    (by omega : -2 ^ 31 ≤ max.toInt) (by omega)
  obtain ⟨abs_min, eabs_min, vabs_min⟩ := int32_of_fits
    (by omega : -2 ^ 31 ≤ -min.toInt) (by omega)
  have hlargest : Max.max |(max.toInt : Value)| |(min.toInt : Value)| =
      ((Max.max max.toInt (-min.toInt) : Int) : Value) := by
    rw [← Int.cast_abs, ← Int.cast_abs, hmax, hmin, Int.cast_max]
  simp only [eopposite, eabs_max, eabs_min, ok_bind, ne_eq, ← Int32.toInt_inj, vopposite, vabs_max,
    vabs_min, hlargest]
  simp only [vmax, vmin, vval]

-- The ranges that no case of the cascade gets wrong.
structure Mappable (raw : RawConfig) : Prop where
  negatable : raw.minimum.toInt ≠ -2 ^ 31
  opposite : raw.maximum.toInt = -raw.minimum.toInt → raw.neutral.toInt ≤ 0
  centred : raw.maximum.toInt + raw.minimum.toInt = 2 * raw.neutral.toInt → raw.neutral.toInt = 0

end RawConfig

namespace Axis

-- The claim of the documentation: a value between -1 and 1 for each raw value in the range, zero
-- for the neutral point, and one slope on both sides of it.
structure MapsLinearly (axis : Axis) : Prop where
  total : ∀ r, axis.raw.Contains r → ∃ x, axis.map r = .ok x
  bounded : ∀ r x, axis.raw.Contains r → axis.map r = .ok x → |x| ≤ 1
  neutral : axis.map axis.raw.neutral = .ok 0
  slope : ∃ slope, 0 < slope ∧ ∀ r r' x x', axis.raw.Contains r → axis.raw.Contains r' →
    axis.map r = .ok x → axis.map r' = .ok x' →
    |x - x'| = slope * |(r.toInt : Value) - r'.toInt|

variable {axis : Axis}

theorem map_eq_linear (hmethod : axis.map_method ≠ .POLYNOMIAL) (r : RawValue) :
    axis.map r = axis.raw.linear r := by
  have hvalue (x : Value) : axis.map_value x = x := by
    unfold map_value
    cases hm : axis.map_method with
    | NONE => rfl
    | LINEAR => rfl
    | POLYNOMIAL => exact absurd hm hmethod
  unfold map
  cases axis.raw.linear r with
  | error failure => rfl
  | ok x => rw [ok_bind, hvalue]

-- What is divided by one number has the slope of its reciprocal, and the ends of the range decide
-- whether it is bounded.
theorem mapsLinearly_of_scaled (hmethod : axis.map_method ≠ .POLYNOMIAL) (h : axis.raw.Ranged)
    {scale : Int} (hscaled : axis.raw.Scaled scale)
    (hmax : axis.raw.maximum.toInt - axis.raw.neutral.toInt ≤ |scale|)
    (hmin : axis.raw.neutral.toInt - axis.raw.minimum.toInt ≤ |scale|) : axis.MapsLinearly := by
  have hlt := h.minimum_lt
  have hpos : 0 < |scale| := by omega
  have hne : (scale : Value) ≠ 0 := by exact_mod_cast abs_pos.mp hpos
  have hposq : (0 : Value) < |(scale : Value)| := abs_pos.mpr hne
  have hmap (r : RawValue) (hr : axis.raw.Contains r) : axis.map r =
      .ok (((r.toInt - axis.raw.neutral.toInt : Int) : Value) / scale) := by
    rw [map_eq_linear hmethod, hscaled r hr, divide_of_ne_zero _ hne]
  refine ⟨fun r hr => ⟨_, hmap r hr⟩, fun r x hr hx => ?_, ?_,
    |(scale : Value)|⁻¹, inv_pos.mpr hposq, fun r r' x x' hr hr' hx hx' => ?_⟩
  · have hbound : |r.toInt - axis.raw.neutral.toInt| ≤ |scale| :=
      abs_le.mpr ⟨by have := hr.1; omega, by have := hr.2; omega⟩
    rw [hmap r hr] at hx
    cases hx
    rw [abs_div, div_le_one hposq]
    exact_mod_cast hbound
  · rw [hmap _ h.contains_neutral, sub_self, Int.cast_zero, zero_div]
  · rw [hmap r hr] at hx
    rw [hmap r' hr'] at hx'
    cases hx
    cases hx'
    have hdistance : ((r.toInt - axis.raw.neutral.toInt : Int) : Value) / scale -
        ((r'.toInt - axis.raw.neutral.toInt : Int) : Value) / scale =
          ((r.toInt : Value) - r'.toInt) / scale := by
      push_cast
      ring
    rw [hdistance, abs_div, div_eq_inv_mul]

-- A value in range at the ends needs a scale that is at least as long as the way to them.
theorem MapsLinearly.le_scale (hm : axis.MapsLinearly) (hmethod : axis.map_method ≠ .POLYNOMIAL)
    {scale : Int} (hscaled : axis.raw.Scaled scale) {r : RawValue} (hr : axis.raw.Contains r) :
    scale ≠ 0 ∧ |r.toInt - axis.raw.neutral.toInt| ≤ |scale| := by
  obtain ⟨x, hx⟩ := hm.total r hr
  have hbound := hm.bounded r x hr hx
  rw [map_eq_linear hmethod, hscaled r hr, divide] at hx
  split at hx
  · cases hx
  · rename_i hne
    cases hx
    have hposq : (0 : Value) < |(scale : Value)| := abs_pos.mpr hne
    rw [abs_div, div_le_one hposq] at hbound
    exact ⟨by exact_mod_cast hne, by exact_mod_cast hbound⟩

theorem mapsLinearly_iff (axis : Axis) (hmethod : axis.map_method ≠ .POLYNOMIAL)
    (h : axis.raw.Ranged) : axis.MapsLinearly ↔ axis.raw.Mappable := by
  have hge := h.neutral_ge
  have hle := h.neutral_le
  have hlt := h.minimum_lt
  constructor
  · intro hm
    have hneutral := hm.neutral
    rw [map_eq_linear hmethod, h.linear_eq h.contains_neutral] at hneutral
    have hnegatable : axis.raw.minimum.toInt ≠ -2 ^ 31 := by
      intro hfirst
      rw [if_pos hfirst] at hneutral
      cases hneutral
    refine ⟨hnegatable, fun hopposite => ?_, fun hcentred => ?_⟩
    · have hscaled : axis.raw.Scaled (axis.raw.maximum.toInt - axis.raw.neutral.toInt) := by
        intro r hr
        simp only [h.linear_eq hr, if_neg hnegatable, if_pos (Or.inl hopposite)]
      obtain ⟨hne, hminimum⟩ := hm.le_scale hmethod hscaled h.contains_minimum
      rw [abs_of_nonpos (by omega), abs_of_nonneg (by omega)] at hminimum
      omega
    · by_contra hneutral_ne
      rw [if_neg hnegatable, if_neg (by omega), if_neg (by omega), if_neg (by omega)] at hneutral
      cases hneutral
  · intro ⟨hnegatable, hopposite, hcentred⟩
    by_cases hfirst : axis.raw.maximum.toInt = -axis.raw.minimum.toInt ∨
        axis.raw.minimum.toInt = axis.raw.neutral.toInt
    · have hscaled : axis.raw.Scaled (axis.raw.maximum.toInt - axis.raw.neutral.toInt) := by
        intro r hr
        simp only [h.linear_eq hr, if_neg hnegatable, if_pos hfirst]
      have hscale := le_abs_self (axis.raw.maximum.toInt - axis.raw.neutral.toInt)
      exact mapsLinearly_of_scaled hmethod h hscaled hscale (by omega)
    by_cases hlast : axis.raw.maximum.toInt = axis.raw.neutral.toInt
    · have hscaled : axis.raw.Scaled (axis.raw.minimum.toInt - axis.raw.neutral.toInt) := by
        intro r hr
        simp only [h.linear_eq hr, if_neg hnegatable, if_neg hfirst, if_pos hlast]
      have hscale := neg_le_abs (axis.raw.minimum.toInt - axis.raw.neutral.toInt)
      exact mapsLinearly_of_scaled hmethod h hscaled (by omega) (by omega)
    · have hscaled : axis.raw.Scaled (max (axis.raw.maximum.toInt - axis.raw.neutral.toInt)
          (-(axis.raw.minimum.toInt - axis.raw.neutral.toInt))) := by
        intro r hr
        simp only [h.linear_eq hr, if_neg hnegatable, if_neg hfirst, if_neg hlast]
        rw [if_pos (by omega)]
      have hscale := le_abs_self (max (axis.raw.maximum.toInt - axis.raw.neutral.toInt)
        (-(axis.raw.minimum.toInt - axis.raw.neutral.toInt)))
      exact mapsLinearly_of_scaled hmethod h hscaled (by omega) (by omega)

theorem centred_mapsLinearly : (of_raw ⟨0, -10, 10, 0, 0⟩).MapsLinearly :=
  (mapsLinearly_iff (of_raw ⟨0, -10, 10, 0, 0⟩) (by decide)
    ⟨by decide, by decide, by decide, by decide⟩).mpr ⟨by decide, by decide, by decide⟩

-- The neutral point lies halfway between the ends, but it is not zero.
theorem halfway_not_mapsLinearly : (of_raw ⟨5, 0, 10, 0, 0⟩).raw.Ranged ∧
    (of_raw ⟨5, 0, 10, 0, 0⟩).map 0 =
      .error (.runtime_error "Unhandled edge case in Axis::map(RawValue)") ∧
    ¬(of_raw ⟨5, 0, 10, 0, 0⟩).MapsLinearly := by
  have hthrows : (of_raw ⟨5, 0, 10, 0, 0⟩).map 0 =
      .error (.runtime_error "Unhandled edge case in Axis::map(RawValue)") := by decide
  refine ⟨⟨by decide, by decide, by decide, by decide⟩, hthrows, fun hm => ?_⟩
  obtain ⟨x, hx⟩ := hm.total 0 (by decide)
  rw [hthrows] at hx
  cases hx

theorem toInt_clip (hmode : axis.type = .ABSOLUTE ∨ axis.mode = .ABSOLUTE) (r : RawValue) :
    (axis.clip r).toInt = min (max r.toInt axis.raw.minimum.toInt) axis.raw.maximum.toInt := by
  have hmax (x y : Int32) : (max x y).toInt = max x.toInt y.toInt := by
    change (if x ≤ y then y else x).toInt = _
    rw [apply_ite Int32.toInt, max_def]
    simp only [Int32.le_iff_toInt_le]
  have hmin (x y : Int32) : (min x y).toInt = min x.toInt y.toInt := by
    change (if x ≤ y then x else y).toInt = _
    rw [apply_ite Int32.toInt, min_def]
    simp only [Int32.le_iff_toInt_le]
  rw [clip, if_pos hmode, hmin, hmax]

theorem contains_clip (hrange : axis.raw.minimum.toInt ≤ axis.raw.maximum.toInt)
    (hmode : axis.type = .ABSOLUTE ∨ axis.mode = .ABSOLUTE) (r : RawValue) :
    axis.raw.Contains (axis.clip r) := by
  rw [RawConfig.Contains, toInt_clip hmode]
  omega

end Axis

end RoboCrisp.Input
