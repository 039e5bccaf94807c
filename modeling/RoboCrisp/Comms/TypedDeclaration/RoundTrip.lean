import RoboCrisp.Comms.TypedDeclaration.Conversion
import RoboCrisp.Comms.Equality

namespace RoboCrisp.Comms

open RoboCrisp.Stream RoboCrisp.Util

open Arithmetic (category is_signed sizeof bytes)

section Received

-- What a peer keeps of a declaration: all that it says, and of a slot as much as is sent.
structure DataDeclaration.Received (obj out : DataDeclaration) : Prop where
  is_array_eq : out.is_array = obj.is_array
  array_size_width_eq : out.array_size_width = obj.array_size_width
  has_neutral_value_eq : out.has_neutral_value = obj.has_neutral_value
  has_minimum_value_eq : out.has_minimum_value = obj.has_minimum_value
  has_maximum_value_eq : out.has_maximum_value = obj.has_maximum_value
  neutral : out.has_neutral_value = false ∨ out.neutral_value.bytes.take obj.width.toNat =
    obj.neutral_value.bytes.take obj.width.toNat
  minimum : out.has_minimum_value = false ∨ out.minimum_value.bytes.take obj.width.toNat =
    obj.minimum_value.bytes.take obj.width.toNat
  maximum : out.has_maximum_value = false ∨ out.maximum_value.bytes.take obj.width.toNat =
    obj.maximum_value.bytes.take obj.width.toNat

theorem DataDeclaration.Represents.received {obj out : DataDeclaration} {s : DeclarationContents}
    (h : obj.Represents s) (hout : out.Represents s) : obj.Received out := by
  have hneutral := hout.neutral.bytes_eq h.neutral
  have hminimum := hout.minimum.bytes_eq h.minimum
  have hmaximum := hout.maximum.bytes_eq h.maximum
  rw [← h.width_eq] at hneutral hminimum hmaximum
  exact ⟨hout.is_array_eq.trans h.is_array_eq.symm,
    hout.array_size_width_eq.trans h.array_size_width_eq.symm,
    hout.neutral.present_eq.trans h.neutral.present_eq.symm,
    hout.minimum.present_eq.trans h.minimum.present_eq.symm,
    hout.maximum.present_eq.trans h.maximum.present_eq.symm, hneutral, hminimum, hmaximum⟩

theorem DataDeclaration.Sound.exists_received {obj : DataDeclaration} (h : obj.Sound) :
    ∃ wire out, wire.length = obj.get_encoded_size ∧ Stores obj.encode wire ∧
      Decoder.Consumes DataDeclaration.decode wire (.SUCCESS, out) ∧ obj.Received out := by
  obtain ⟨s, hrep⟩ := h.exists_represents
  obtain ⟨out, hdecode, hout⟩ := DataDeclaration.consumes_decode s
  have hstores : Stores obj.encode s.wire := by
    have hwire := hrep.emits.stores
    rwa [Stream.wire_cons, DataDeclaration.wire_tailPieces] at hwire
  exact ⟨s.wire, out, hrep.get_encoded_size_eq.symm, hstores, hdecode, hrep.received hout⟩

end Received

namespace TypedDeclaration

variable {T : Type}

section Shows

variable [Arithmetic T]

-- Two slots that start alike show the same bounds.
theorem shows_congr {present present' : Bool} {slot slot' : Slot} (hpresent : present' = present)
    (hslot : present' = false ∨ slot'.bytes.take (sizeof T) = slot.bytes.take (sizeof T))
    (bound : Option T) : Shows present' slot' bound ↔ Shows present slot bound := by
  subst hpresent
  rcases hslot with habsent | hsame
  · cases bound with
    | none => exact ⟨fun h => ⟨h.present_eq, nofun⟩, fun h => ⟨h.present_eq, nofun⟩⟩
    | some value =>
        have hno : ∀ s, ¬Shows present' s (some value) := by
          intro s h
          exact absurd (habsent.symm.trans h.present_eq) (by simp)
        exact ⟨fun h => absurd h (hno _), fun h => absurd h (hno _)⟩
  · have hstarts : ∀ value : T, bytes value <+: slot'.bytes ↔ bytes value <+: slot.bytes := by
      intro value
      rw [List.prefix_iff_eq_take, List.prefix_iff_eq_take, Arithmetic.length_bytes, hsame]
    constructor
    · intro h
      exact ⟨h.present_eq, fun value hvalue => (hstarts value).mp (h.prefix_of value hvalue)⟩
    · intro h
      exact ⟨h.present_eq, fun value hvalue => (hstarts value).mpr (h.prefix_of value hvalue)⟩

theorem generic_sound {obj : TypedDeclaration T} (h : obj.width.toNat = sizeof T) (minimum : T) :
    (obj.generic_with minimum).width.toNat = sizeof T ∧ (obj.generic_with minimum).Sound := by
  have hwidth : (obj.width.setWidth 5).toNat = sizeof T := by
    rw [BitVec.toNat_setWidth, h, Nat.mod_eq_of_lt toNat_sizeof_lt]
  refine ⟨hwidth, fun _ => ?_⟩
  have hsize := Arithmetic.sizeof_le (T := T)
  exact hwidth.le.trans hsize

theorem get_encoded_size_generic_with {obj : TypedDeclaration T} (h : obj.width.toNat = sizeof T)
    (minimum : T) : (obj.generic_with minimum).get_encoded_size = obj.get_encoded_size := by
  have hwidth := (generic_sound h minimum).1
  rw [get_encoded_size, get_tail_size, h, DataDeclaration.get_encoded_size,
    DataDeclaration.get_tail_size, hwidth]
  rfl

end Shows

variable [Integral T] {args : Keywords T}

-- A bound that is given is shown unless it is the one value that stands for no bound.
theorem shows_given_iff [DecidableEq T] (given : Option T) :
    Shows (decide (given.getD Integral.max ≠ Integral.max))
      (slotIf (decide (given.getD Integral.max ≠ Integral.max)) (given.getD Integral.max)) given ↔
      given ≠ some Integral.max := by
  cases given with
  | none => exact ⟨nofun, fun _ => ⟨by simp, nofun⟩⟩
  | some value =>
      by_cases h : value = Integral.max
      · simp only [Option.getD_some, h, ne_eq, not_true, decide_false, iff_false]
        intro hshows
        exact absurd hshows.present_eq (by simp)
      · simp only [Option.getD_some, Option.some.injEq, ne_eq, h, not_false_eq_true, decide_true,
          iff_true]
        exact shows_slotIf true value

-- A declaration has what the keywords asked for.
structure Delivers (args : Keywords T) (out : DataDeclaration) : Prop where
  neutral : Shows out.has_neutral_value out.neutral_value args.neutral
  minimum : Shows out.has_minimum_value out.minimum_value args.minimum
  maximum : Shows out.has_maximum_value out.maximum_value args.maximum
  is_array : ∀ array, args.array = some array → out.is_array = array
  array_size_width : ∀ array_size_width, args.array_size_width = some array_size_width →
    out.array_size_width = array_size_width

theorem delivers_received_iff {obj out : DataDeclaration} (hwidth : obj.width.toNat = sizeof T)
    (h : obj.Received out) : Delivers args out ↔ Delivers args obj := by
  obtain ⟨harray, hsize, hhasn, hhasm, hhasx, hneutral, hminimum, hmaximum⟩ := h
  rw [hwidth] at hneutral hminimum hmaximum
  have hn := shows_congr hhasn hneutral args.neutral
  have hm := shows_congr hhasm hminimum args.minimum
  have hx := shows_congr hhasx hmaximum args.maximum
  constructor
  · rintro ⟨h1, h2, h3, h4, h5⟩
    exact ⟨hn.mp h1, hm.mp h2, hx.mp h3, harray ▸ h4, hsize ▸ h5⟩
  · rintro ⟨h1, h2, h3, h4, h5⟩
    exact ⟨hn.mpr h1, hm.mpr h2, hx.mpr h3, harray.symm ▸ h4, hsize.symm ▸ h5⟩

variable [DecidableEq T]

theorem delivers_construct_iff (memory : UInt8) (args : Keywords T) :
    Delivers args (construct_integral memory args).generic_integral ↔
      (args.neutral ≠ some Integral.max ∧ args.minimum ≠ some Integral.max ∧
        args.maximum ≠ some Integral.max) ∧
      ∀ array_size_width, args.array_size_width = some array_size_width → array_size_width = 0 := by
  rw [← shows_given_iff args.neutral, ← shows_given_iff args.minimum, ← shows_given_iff args.maximum]
  constructor
  · intro h
    exact ⟨⟨h.neutral, h.minimum, h.maximum⟩, fun size hsize => (h.array_size_width size hsize).symm⟩
  · rintro ⟨⟨hneutral, hminimum, hmaximum⟩, hsize⟩
    refine ⟨hneutral, hminimum, hmaximum, fun array harray => ?_, fun size h => (hsize size h).symm⟩
    change args.array.getD false = array
    rw [harray]
    rfl

-- What is constructed from the keywords is encoded, and a peer reads what they asked for.
def ReachesWire (memory : UInt8) (args : Keywords T) : Prop :=
  ∃ wire out, wire.length = (construct_integral memory args).get_encoded_size ∧
    Stores (construct_integral memory args).encode wire ∧
    Decoder.Consumes DataDeclaration.decode wire (.SUCCESS, out) ∧ Delivers args out

-- What reaches the peer is what the conversion keeps.
theorem reachesWire_iff_delivers (memory : UInt8) (hwidth : args.width = none) :
    ReachesWire memory args ↔ Delivers args (construct_integral memory args).generic_integral := by
  have hsizeof : (construct_integral memory args).width.toNat = sizeof T := by
    have hsize := Arithmetic.sizeof_le (T := T)
    simp only [construct_integral, construct, hwidth, Option.map_none, Option.getD_none,
      BitVec.toNat_ofNat]
    omega
  obtain ⟨hgeneric, hsound⟩ :=
    generic_sound hsizeof (construct_integral memory args).minimum_value
  obtain ⟨wire, out, hlength, hstores, hdecode, hreceived⟩ := hsound.exists_received
  rw [get_encoded_size_generic_with hsizeof] at hlength
  rw [generic_integral, ← delivers_received_iff hgeneric hreceived, ReachesWire, encode,
    generic_of_integral]
  constructor
  · rintro ⟨wire', out', -, hstores', hdecode', hdelivers⟩
    obtain rfl := Encoder.Stores.unique hstores' hstores
    obtain ⟨-, rfl⟩ := Prod.mk.inj (hdecode'.unique hdecode)
    exact hdelivers
  · intro hdelivers
    exact ⟨wire, out, hlength, hstores, hdecode, hdelivers⟩

-- What is asked for arrives unless a bound is the highest value of the type, or the sizes of
-- an array are given a width.
theorem reachesWire_iff (memory : UInt8) (args : Keywords T) (hwidth : args.width = none) :
    ReachesWire memory args ↔
      (args.neutral ≠ some Integral.max ∧ args.minimum ≠ some Integral.max ∧
        args.maximum ≠ some Integral.max) ∧
      ∀ array_size_width, args.array_size_width = some array_size_width → array_size_width = 0 :=
  (reachesWire_iff_delivers memory hwidth).trans (delivers_construct_iff memory args)

-- { _neutral = 0, _minimum = -127 }
def turning : Keywords int8_t := ⟨some ⟨0⟩, some ⟨-127⟩, none, none, none, none⟩

theorem turning_reachesWire : turning.width = none ∧ ReachesWire 0 turning := by
  have hwidth : turning.width = none := rfl
  exact ⟨hwidth, (reachesWire_iff 0 turning hwidth).mpr ⟨by decide, nofun⟩⟩

-- { _neutral = 0, _minimum = -127, _maximum = 127 }
def speeding : Keywords int8_t := ⟨some ⟨0⟩, some ⟨-127⟩, some ⟨127⟩, none, none, none⟩

-- { _array = true, _array_size_width = 2 }
def measuring : Keywords int8_t := ⟨none, none, none, some true, none, some 2⟩

theorem speeding_not_reachesWire :
    speeding.width = none ∧ ¬ReachesWire 0 speeding ∧
      measuring.width = none ∧ ¬ReachesWire 0 measuring := by
  refine ⟨rfl, fun h => ?_, rfl, fun h => ?_⟩
  · have hdelivers := (reachesWire_iff_delivers 0 rfl).mp h
    exact absurd hdelivers.maximum.present_eq (by decide)
  · have hdelivers := (reachesWire_iff_delivers 0 rfl).mp h
    exact absurd (hdelivers.array_size_width 2 rfl) (by decide)

end TypedDeclaration

end RoboCrisp.Comms
