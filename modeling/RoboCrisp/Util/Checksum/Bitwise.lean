import RoboCrisp.Remainder.Reflected
import RoboCrisp.Util.Checksum

namespace RoboCrisp.Util

open Remainder

-- x^32 + x^26 + x^23 + x^22 + x^16 + x^12 + x^11 + x^10 + x^8 + x^7 + x^5 + x^4 + x^2 + x + 1,
-- the highest power lowest and left out.
def polynomial : BitVec 32 := 0xEDB88320

-- The bits of a block in the order in which they enter the register.
def bits (data : Bytes) : List Bool := data.flatMap fun byte => bitsOf byte.toBitVec

-- What a CRC-32 is, bit by bit.
def crc32Bitwise (data : Bytes) : BitVec 32 :=
  feedAll polynomial 0xffffffff (bits data) ^^^ 0xffffffff

theorem bits_append (front back : Bytes) : bits (front ++ back) = bits front ++ bits back :=
  List.flatMap_append

theorem length_bits (data : Bytes) : (bits data).length = 8 * data.length := by
  induction data with
  | nil => rfl
  | cons byte data ih =>
      rw [bits, List.flatMap_cons, List.length_append, length_bitsOf, ← bits, ih, List.length_cons]
      omega

theorem bits_injective {data data' : Bytes} (hlength : data.length = data'.length)
    (h : bits data = bits data') : data = data' := by
  induction data generalizing data' with
  | nil => exact (List.length_eq_zero_iff.mp hlength.symm).symm
  | cons byte data ih =>
      cases data' with
      | nil => exact absurd hlength (by simp)
      | cons byte' data' =>
          obtain ⟨hbyte, hdata⟩ := List.append_inj h (by rw [length_bitsOf, length_bitsOf])
          rw [UInt8.toBitVec_inj.mp (bitsOf_injective hbyte), ih (Nat.succ_injective hlength) hdata]

-- Every entry is what is left of its index after eight places.
theorem crc32_table_entry : ∀ i < 256,
    (crc32_table.getD i 0).toBitVec = (shift polynomial)^[8] (BitVec.ofNat 32 i) := by
  decide +kernel

-- One turn of the loop takes in the eight bits of a byte.
theorem update_crc32_byte (c : UInt32) (byte : UInt8) :
    (update_crc32 c [byte]).toBitVec = feedAll polynomial c.toBitVec (bitsOf byte.toBitVec) := by
  have hindex : ((c ^^^ byte.toUInt32) &&& 0xff).toNat =
      ((c.toBitVec ^^^ byte.toBitVec.setWidth 32).setWidth 8).toNat := by
    rw [UInt32.toNat_and, BitVec.toNat_setWidth]
    exact Nat.and_two_pow_sub_one_eq_mod _ 8
  have hlow : BitVec.ofNat 32 ((c.toBitVec ^^^ byte.toBitVec.setWidth 32).setWidth 8).toNat =
      ((c.toBitVec ^^^ byte.toBitVec.setWidth 32).setWidth 8).setWidth 32 := by
    rw [BitVec.ofNat_toNat]
  have hhigh : (byte.toBitVec.setWidth 32) >>> 8 = 0#32 := by
    apply BitVec.eq_of_toNat_eq
    have hlt := byte.toBitVec.isLt
    rw [BitVec.toNat_ushiftRight, BitVec.toNat_setWidth, Nat.shiftRight_eq_div_pow, BitVec.toNat_ofNat]
    omega
  have hentry := crc32_table_entry ((c ^^^ byte.toUInt32) &&& 0xff).toNat (by
    rw [hindex]
    exact BitVec.isLt _)
  rw [feedAll_bitsOf polynomial (by decide), iterate_shift_byte, BitVec.ushiftRight_xor_distrib,
    hhigh, BitVec.xor_zero, ← hlow, ← hindex, ← hentry]
  rfl

theorem update_crc32_append (crc : UInt32) (front back : Bytes) :
    update_crc32 crc (front ++ back) = update_crc32 (update_crc32 crc front) back :=
  List.foldl_append

theorem update_crc32_eq (crc : UInt32) (buf : Bytes) :
    (update_crc32 crc buf).toBitVec = feedAll polynomial crc.toBitVec (bits buf) := by
  induction buf generalizing crc with
  | nil => rfl
  | cons byte buf ih =>
      have hbits : bits (byte :: buf) = bitsOf byte.toBitVec ++ bits buf := List.flatMap_cons
      rw [← List.singleton_append, update_crc32_append, ih, update_crc32_byte, List.singleton_append,
        hbits, feedAll_append]

-- The table gives the checksum that is defined bit by bit, and a checksum can be taken in parts.
theorem crc32_eq_bitwise : (∀ data : Bytes, (crc32 data).toBitVec = crc32Bitwise data) ∧
    ∀ (crc : UInt32) (front back : Bytes),
      update_crc32 crc (front ++ back) = update_crc32 (update_crc32 crc front) back := by
  refine ⟨fun data => ?_, update_crc32_append⟩
  rw [crc32, UInt32.toBitVec_xor, update_crc32_eq]
  rfl

-- Other bytes in the place of no more than four give another checksum.
theorem crc32_window_ne {front window window' back : Bytes} (hwindow : window.length ≤ 4)
    (hlength : window.length = window'.length) (hne : window ≠ window') :
    crc32 (front ++ window ++ back) ≠ crc32 (front ++ window' ++ back) := by
  intro hsame
  have hregister := congrArg UInt32.toBitVec hsame
  rw [crc32, crc32, UInt32.toBitVec_xor, UInt32.toBitVec_xor, BitVec.xor_left_inj, update_crc32_eq,
    update_crc32_eq, bits_append, bits_append, bits_append, bits_append front window'] at hregister
  have hbits : bits window = bits window' := by
    refine eq_of_feedAll_window_eq (by decide) ?_ ?_ hregister
    · rw [length_bits]
      omega
    · rw [length_bits, length_bits, hlength]
  exact hne (bits_injective hlength hbits)

end RoboCrisp.Util
