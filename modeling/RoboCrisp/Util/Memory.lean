import Mathlib.Algebra.GroupWithZero.Nat
import Mathlib.Data.List.TakeWhile

namespace RoboCrisp.Util

abbrev Bytes := List UInt8

-- What freshly allocated memory holds before anything is stored in it.
class Heap where
  fresh : Nat → UInt8

def Heap.alloc [Heap] (size : Nat) : Bytes := (List.range size).map Heap.fresh

@[reducible] def Heap.zeros : Heap := ⟨fun _ => 0⟩

@[simp] theorem Heap.length_alloc [Heap] (size : Nat) : (Heap.alloc size).length = size := by
  simp [Heap.alloc]

-- The first `size` bytes behind a pointer to `block`. There is no result when
-- they run past the end of the block.
def load (block : Bytes) (size : Nat) : Option Bytes :=
  if size ≤ block.length then some (block.take size) else none

-- Copy `bytes` over the ones behind `offset`. There is no result when they run past the
-- end of the block.
def store (block : Bytes) (offset : Nat) (bytes : Bytes) : Option Bytes :=
  if offset + bytes.length ≤ block.length then
    some (block.take offset ++ bytes ++ block.drop (offset + bytes.length))
  else none

-- Buffer::resize of a buffer that owns its data. What is added comes as realloc leaves it.
def Buffer.resize [Heap] (data : Bytes) (capacity : Nat) : Bytes :=
  data.take capacity ++ Heap.alloc (capacity - data.length)

-- The characters of a C string, without the terminator.
structure CString where
  chars : Bytes
  no_nul : 0 ∉ chars

def CString.block (string : CString) : Bytes := string.chars ++ [0]

def strlen (string : CString) : Nat := string.chars.length

-- Whether two strings agree in their first `size` characters, or up to a NUL that both
-- have. There is no result when one of them ends before that is settled.
def strncmp : Bytes → Bytes → Nat → Option Bool
  | _, _, 0 => some true
  | a :: first, b :: second, size + 1 =>
      if a ≠ b then some false else if a = 0 then some true else strncmp first second size
  | _, _, _ => none

-- The same without a limit.
def strcmp : Bytes → Bytes → Option Bool
  | a :: first, b :: second =>
      if a ≠ b then some false else if a = 0 then some true else strcmp first second
  | _, _ => none

-- Up to `size` characters, stopping at the first NUL and padded with NULs. There is no
-- result when the source ends before either is met.
def strncpy (source : Bytes) (size : Nat) : Option Bytes :=
  let chars := (source.take size).takeWhile (· ≠ 0)
  if source.length < size ∧ chars = source then none
  else some (chars ++ List.replicate (size - chars.length) 0)

theorem strncmp_eq {chars chars' : Bytes} (hlength : chars.length = chars'.length)
    (hnul : 0 ∉ chars) (back back' : Bytes) :
    strncmp (chars ++ back) (chars' ++ back') chars.length = some (decide (chars = chars')) := by
  induction chars generalizing chars' with
  | nil =>
      obtain rfl : chars' = [] := List.length_eq_zero_iff.mp hlength.symm
      simp [strncmp]
  | cons a chars ih =>
      cases chars' with
      | nil => exact absurd hlength (by simp)
      | cons b chars' =>
          obtain ⟨ha, hnul⟩ := not_or.mp (mt List.mem_cons.mpr hnul)
          have hrest := ih (Nat.succ_injective hlength) hnul
          rw [List.cons_append, List.cons_append, List.length_cons, strncmp]
          by_cases hab : a = b
          · rw [if_neg (not_not_intro hab), if_neg (Ne.symm ha), hrest]
            simp [hab]
          · rw [if_pos hab]
            simp [hab]

theorem strcmp_eq_true_iff {first second : Bytes} : strcmp first second = some true ↔
    ∃ chars, 0 ∉ chars ∧ chars ++ [0] <+: first ∧ chars ++ [0] <+: second := by
  induction first generalizing second with
  | nil => simp [strcmp]
  | cons a first ih =>
      cases second with
      | nil => simp [strcmp]
      | cons b second =>
          rw [strcmp]
          by_cases hab : a = b
          · subst hab
            rw [if_neg (not_not_intro rfl)]
            by_cases hnul : a = 0
            · rw [if_pos hnul]
              subst hnul
              exact iff_of_true rfl ⟨[], List.not_mem_nil, ⟨first, rfl⟩, ⟨second, rfl⟩⟩
            · rw [if_neg hnul, ih]
              constructor
              · rintro ⟨chars, hchars, hfirst, hsecond⟩
                refine ⟨a :: chars, ?_, ?_, ?_⟩
                · simp [hchars, Ne.symm hnul]
                · exact List.cons_prefix_cons.mpr ⟨rfl, hfirst⟩
                · exact List.cons_prefix_cons.mpr ⟨rfl, hsecond⟩
              · rintro ⟨_ | ⟨c, chars⟩, hchars, hfirst, hsecond⟩
                · exact absurd (List.cons_prefix_cons.mp hfirst).1.symm hnul
                · exact ⟨chars, fun h => hchars (List.mem_cons_of_mem _ h),
                    (List.cons_prefix_cons.mp hfirst).2, (List.cons_prefix_cons.mp hsecond).2⟩
          · rw [if_pos hab]
            refine iff_of_false (by simp) ?_
            rintro ⟨_ | ⟨c, chars⟩, -, hfirst, hsecond⟩
            · exact hab ((List.cons_prefix_cons.mp hfirst).1.symm.trans
                (List.cons_prefix_cons.mp hsecond).1)
            · exact hab ((List.cons_prefix_cons.mp hfirst).1.symm.trans
                (List.cons_prefix_cons.mp hsecond).1)

-- Characters without a NUL are copied as they are.
theorem strncpy_of_prefix {chars block : Bytes} (h : chars <+: block) (hnul : 0 ∉ chars) :
    strncpy block chars.length = some chars := by
  have hall : chars.takeWhile (· ≠ 0) = chars := by
    rw [List.takeWhile_eq_self_iff]
    intro c hc
    have : c ≠ 0 := fun h => hnul (h ▸ hc)
    simpa using this
  have hlength := h.length_le
  simp only [strncpy, ← List.prefix_iff_eq_take.mp h, hall]
  rw [if_neg (by omega)]
  simp

theorem length_strncpy {source copy : Bytes} {size : Nat} (h : strncpy source size = some copy) :
    copy.length = size := by
  unfold strncpy at h
  obtain ⟨-, h⟩ := Option.ite_none_left_eq_some.mp h
  obtain rfl := Option.some.inj h
  have hle : ((source.take size).takeWhile (· ≠ 0)).length ≤ size :=
    ((List.takeWhile_prefix _).length_le.trans (List.length_take_le _ _))
  simp only [List.length_append, List.length_replicate]
  omega

theorem load_of_prefix {chars block : Bytes} (h : chars <+: block) :
    load block chars.length = some chars := by
  rw [load, if_pos h.length_le, ← List.prefix_iff_eq_take.mp h]

end RoboCrisp.Util
