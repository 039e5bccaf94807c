import Mathlib.Data.List.GetD
import Mathlib.Logic.Function.Iterate

namespace RoboCrisp.Remainder

-- The remainder of a row of bits on division by a polynomial over the field of two
-- elements, lowest bit first. The register has the coefficient of the highest power at its
-- low end, and the polynomial is given without that of its degree.

variable {w : Nat} (poly : BitVec w)

-- One place of the division.
def shift (c : BitVec w) : BitVec w := if c.getLsbD 0 then (c >>> 1) ^^^ poly else c >>> 1

-- One bit of the row enters at the low end.
def feed (c : BitVec w) (bit : Bool) : BitVec w := shift poly (c ^^^ (BitVec.ofBool bit).setWidth w)

def feedAll (c : BitVec w) (bits : List Bool) : BitVec w := bits.foldl (feed poly) c

-- A row of bits as a number, the first bit lowest.
def number (w : Nat) (bits : List Bool) : BitVec w := (BitVec.ofBoolListLE bits).setWidth w

theorem feedAll_append (c : BitVec w) (front back : List Bool) :
    feedAll poly c (front ++ back) = feedAll poly (feedAll poly c front) back :=
  List.foldl_append

section Linear

-- The division does not carry.
theorem shift_xor (a b : BitVec w) : shift poly (a ^^^ b) = shift poly a ^^^ shift poly b := by
  rw [shift, shift, shift, BitVec.getLsbD_xor, BitVec.ushiftRight_xor_distrib]
  cases a.getLsbD 0 with
  | false =>
      cases b.getLsbD 0 with
      | false => rfl
      | true => exact BitVec.xor_assoc _ _ _
  | true =>
      cases b.getLsbD 0 with
      | false =>
          change a >>> 1 ^^^ b >>> 1 ^^^ poly = a >>> 1 ^^^ poly ^^^ b >>> 1
          rw [BitVec.xor_assoc, BitVec.xor_comm (b >>> 1), ← BitVec.xor_assoc]
      | true =>
          change a >>> 1 ^^^ b >>> 1 = a >>> 1 ^^^ poly ^^^ (b >>> 1 ^^^ poly)
          rw [BitVec.xor_comm (b >>> 1), BitVec.xor_assoc, ← BitVec.xor_assoc poly, BitVec.xor_self,
            BitVec.zero_xor]

theorem iterate_shift_xor (n : Nat) (a b : BitVec w) :
    (shift poly)^[n] (a ^^^ b) = (shift poly)^[n] a ^^^ (shift poly)^[n] b := by
  induction n generalizing a b with
  | zero => rfl
  | succ n ih => rw [Function.iterate_succ_apply, shift_xor, ih]; rfl

-- Where the low bits are clear, there is nothing to subtract.
theorem iterate_shift_of_clear {n : Nat} {c : BitVec w} (h : ∀ i < n, c.getLsbD i = false) :
    (shift poly)^[n] c = c >>> n := by
  induction n with
  | zero => simp
  | succ n ih =>
      have hlow : (c >>> n).getLsbD 0 = false := by
        rw [BitVec.getLsbD_ushiftRight]
        exact h n (Nat.lt_succ_self n)
      rw [Function.iterate_succ_apply', ih fun i hi => h i (Nat.lt_succ_of_lt hi), shift, hlow,
        BitVec.shiftRight_add]
      rfl

end Linear

section Injective

variable {poly}

-- The highest bit of the register tells whether the polynomial has been subtracted, as long
-- as its constant coefficient is not zero.
theorem shift_injective (hpoly : poly.msb = true) : Function.Injective (shift poly) := by
  intro a b h
  have hpos : 0 < w := by
    by_contra hzero
    obtain rfl : w = 0 := by omega
    simp [BitVec.msb] at hpoly
  have hmsb : ∀ c : BitVec w, (shift poly c).msb = c.getLsbD 0 := by
    intro c
    rw [shift]
    cases c.getLsbD 0 with
    | false => simp [BitVec.msb_ushiftRight]
    | true => simp [BitVec.msb_ushiftRight, hpoly]
  have hlow : a.getLsbD 0 = b.getLsbD 0 := by rw [← hmsb a, ← hmsb b, h]
  have hhigh : a >>> 1 = b >>> 1 := by
    rw [shift, shift, hlow] at h
    cases hb : b.getLsbD 0 with
    | false => simpa [hb] using h
    | true => simpa [hb, BitVec.xor_left_inj] using h
  apply BitVec.eq_of_getLsbD_eq
  intro i hi
  cases i with
  | zero => exact hlow
  | succ i =>
      have hbit := congrArg (fun c : BitVec w => c.getLsbD i) hhigh
      simpa [BitVec.getLsbD_ushiftRight, Nat.add_comm] using hbit

theorem feedAll_injective (hpoly : poly.msb = true) (bits : List Bool) :
    Function.Injective fun c => feedAll poly c bits := by
  induction bits with
  | nil => exact fun _ _ h => h
  | cons bit bits ih =>
      intro a b h
      exact (BitVec.xor_left_inj _).mp (shift_injective hpoly (ih h))

end Injective

section Rows

theorem getLsbD_number (bits : List Bool) (i : Nat) :
    (number w bits).getLsbD i = (decide (i < w) && bits.getD i false) := by
  rw [number, BitVec.getLsbD_setWidth, BitVec.getLsbD_ofBoolListLE]

theorem number_cons (bit : Bool) (bits : List Bool) :
    number w (bit :: bits) = (BitVec.ofBool bit).setWidth w ^^^ number w bits <<< 1 := by
  apply BitVec.eq_of_getLsbD_eq
  intro i hi
  rw [BitVec.getLsbD_xor, BitVec.getLsbD_shiftLeft, getLsbD_number, getLsbD_number,
    BitVec.getLsbD_setWidth, BitVec.getLsbD_ofBool]
  cases i with
  | zero => simp
  | succ i => simp [hi]; omega

-- A row that fits into the register can be entered at once.
theorem feedAll_eq {bits : List Bool} (h : bits.length ≤ w) (c : BitVec w) :
    feedAll poly c bits = (shift poly)^[bits.length] (c ^^^ number w bits) := by
  induction bits generalizing c with
  | nil =>
      have hzero : number w [] = 0 := by
        apply BitVec.eq_of_getLsbD_eq
        intro i _
        simp [getLsbD_number]
      rw [hzero]
      exact BitVec.xor_zero.symm
  | cons bit bits ih =>
      rw [List.length_cons] at h
      -- what waits behind the first bit comes down by one place
      have hnext : shift poly (number w bits <<< 1) = number w bits := by
        have hclear : ∀ i < 1, (number w bits <<< 1).getLsbD i = false := by
          intro i hi
          simp [BitVec.getLsbD_shiftLeft, hi]
        rw [← Function.iterate_one (shift poly), iterate_shift_of_clear poly hclear]
        apply BitVec.eq_of_getLsbD_eq
        intro i hi
        rw [BitVec.getLsbD_ushiftRight, BitVec.getLsbD_shiftLeft, Nat.add_sub_cancel_left]
        by_cases hlast : 1 + i < w
        · simp [hlast]
        · have hbeyond : bits.getD i false = false := List.getD_eq_default bits false (by omega)
          rw [decide_eq_false hlast, getLsbD_number, hbeyond, Bool.false_and, Bool.false_and,
            Bool.and_false]
      rw [List.length_cons, Function.iterate_succ_apply, number_cons, ← BitVec.xor_assoc, shift_xor,
        hnext]
      exact ih (Nat.le_of_succ_le h) _

theorem number_injective {bits bits' : List Bool} (h : bits.length ≤ w)
    (hlength : bits.length = bits'.length) (hsame : number w bits = number w bits') : bits = bits' := by
  apply List.ext_getElem hlength
  intro i hi hi'
  have hbit := congrArg (fun c : BitVec w => c.getLsbD i) hsame
  rw [getLsbD_number, getLsbD_number, decide_eq_true (Nat.lt_of_lt_of_le hi h), Bool.true_and,
    Bool.true_and, List.getD_eq_getElem _ _ hi, List.getD_eq_getElem _ _ hi'] at hbit
  exact hbit

-- Two rows of one length leave different remainders if they differ, and in no more places
-- than the register has.
theorem eq_of_feedAll_eq {poly : BitVec w} (hpoly : poly.msb = true) {bits bits' : List Bool}
    (h : bits.length ≤ w) (hlength : bits.length = bits'.length) {c : BitVec w}
    (hsame : feedAll poly c bits = feedAll poly c bits') : bits = bits' := by
  rw [feedAll_eq poly h, feedAll_eq poly (hlength ▸ h), ← hlength] at hsame
  have hnumbers := (shift_injective hpoly).iterate _ hsame
  exact number_injective h hlength ((BitVec.xor_right_inj c).mp hnumbers)

-- Wherever the two rows differ.
theorem eq_of_feedAll_window_eq {poly : BitVec w} (hpoly : poly.msb = true)
    {front bits bits' back : List Bool} (h : bits.length ≤ w) (hlength : bits.length = bits'.length)
    {c : BitVec w}
    (hsame : feedAll poly c (front ++ bits ++ back) = feedAll poly c (front ++ bits' ++ back)) :
    bits = bits' := by
  rw [feedAll_append, feedAll_append, feedAll_append poly c _ back, feedAll_append poly c front] at hsame
  exact eq_of_feedAll_eq hpoly h hlength (feedAll_injective hpoly back hsame)

end Rows

section Bytes

-- The bits of a byte, lowest first.
def bitsOf (byte : BitVec 8) : List Bool := (List.range 8).map byte.getLsbD

theorem length_bitsOf (byte : BitVec 8) : (bitsOf byte).length = 8 := by simp [bitsOf]

theorem bitsOf_injective : Function.Injective bitsOf := by
  intro a b h
  apply BitVec.eq_of_getLsbD_eq
  intro i hi
  exact List.map_inj_left.mp h i (List.mem_range.mpr hi)

theorem number_bitsOf (byte : BitVec 8) : number w (bitsOf byte) = byte.setWidth w := by
  apply BitVec.eq_of_getLsbD_eq
  intro i hi
  rw [getLsbD_number, BitVec.getLsbD_setWidth, bitsOf]
  congr 1
  by_cases hbyte : i < 8
  · rw [List.getD_eq_getElem _ _ (by simpa using hbyte), List.getElem_map, List.getElem_range]
  · rw [List.getD_eq_default _ _ (by simpa using hbyte), BitVec.getLsbD_of_ge byte i (by omega)]

-- Of eight places, those of the low byte can be looked up, and the rest comes down.
theorem iterate_shift_byte (c : BitVec w) :
    (shift poly)^[8] c = (shift poly)^[8] ((c.setWidth 8).setWidth w) ^^^ c >>> 8 := by
  have hsplit : c = (c.setWidth 8).setWidth w ^^^ (c >>> 8) <<< 8 := by
    apply BitVec.eq_of_getLsbD_eq
    intro i hi
    rw [BitVec.getLsbD_xor, BitVec.getLsbD_setWidth, BitVec.getLsbD_setWidth,
      BitVec.getLsbD_shiftLeft, BitVec.getLsbD_ushiftRight]
    by_cases hbyte : i < 8
    · simp [hi, hbyte]
    · simp [hi, hbyte, show 8 + (i - 8) = i by omega]
  have hclear : ∀ i < 8, ((c >>> 8) <<< 8).getLsbD i = false := by
    intro i hi
    simp [BitVec.getLsbD_shiftLeft, hi]
  have hhigh : ((c >>> 8) <<< 8) >>> 8 = c >>> 8 := by
    apply BitVec.eq_of_getLsbD_eq
    intro i hi
    rw [BitVec.getLsbD_ushiftRight, BitVec.getLsbD_shiftLeft, Nat.add_sub_cancel_left]
    by_cases hlast : 8 + i < w
    · simp [hlast]
    · simp [hlast, BitVec.getLsbD_ushiftRight, BitVec.getLsbD_of_ge c (8 + i) (by omega)]
  rw [← hhigh, ← iterate_shift_of_clear poly hclear, ← iterate_shift_xor, ← hsplit]

theorem feedAll_bitsOf (h : 8 ≤ w) (c : BitVec w) (byte : BitVec 8) :
    feedAll poly c (bitsOf byte) = (shift poly)^[8] (c ^^^ byte.setWidth w) := by
  rw [feedAll_eq poly (by rwa [length_bitsOf]), length_bitsOf, number_bitsOf]

end Bytes

end RoboCrisp.Remainder
