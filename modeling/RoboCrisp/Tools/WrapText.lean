import Mathlib.Algebra.Order.Group.Int
import RoboCrisp.Text.Words

namespace RoboCrisp.Tools

open RoboCrisp.Text

-- What the expression \s matches, and what strip takes for white space.
def white (c : Char) : Bool := [' ', '\t', '\r', '\n', '\x0c', '\x0b'].contains c

def NUL : Char := '\x00'

def blank (c : Char) : Bool := c == NUL || white c

inductive RubyError
  | ArgumentError
  | TypeError
deriving DecidableEq

-- s[0...n] and s[n..-1], where a negative n counts from the end.
def until_index (s : List Char) (n : Int) : List Char :=
  s.take (if 0 ≤ n then n else s.length + n).toNat

def from_index (s : List Char) (n : Int) : Option (List Char) :=
  let start := if 0 ≤ n then n else s.length + n
  if 0 ≤ start ∧ start ≤ s.length then some (s.drop start.toNat) else none

-- The loop of wrap_text, for as many turns as there is fuel.
def wrap_lines (start_col width : Int) :
    Nat → List Char → List Char → Option (Except RubyError (List Char))
  | 0, _, _ => none
  | fuel + 1, s, out =>
      if width < s.length then
        let front := until_index s width
        let parts := rpartition white front
        match from_index s width with
        | none => some (.error .TypeError)
        | some rest =>
            if start_col < 0 then some (.error .ArgumentError)
            else wrap_lines start_col width fuel (strip blank parts.2.2 ++ rest)
              (out ++ (parts.1 ++ '\n' :: List.replicate start_col.toNat ' '))
      else some (.ok (out ++ strip blank s))

def wrap_text (fuel : Nat) (s : List Char) (start_col max_col : Int) :
    Option (Except RubyError (List Char)) :=
  let width := max_col - start_col
  if s.length ≤ width then some (.ok s) else wrap_lines start_col width fuel s []

-- wrap_text comes to an end, and what it returns has the words that it was given.
def KeepsWords (s : List Char) (start_col max_col : Int) : Prop :=
  ∃ fuel out, wrap_text fuel s start_col max_col = some (.ok out) ∧ words white out = words white s

-- Only white space is stripped.
def Kept (s : List Char) : Prop := (strip blank s).count NUL = s.count NUL

-- There is white space to cut each line at, and what goes to the next line is kept.
inductive Wraps (width : Nat) : List Char → Prop
  | last {s : List Char} (hlength : s.length ≤ width) (hkept : Kept s) : Wraps width s
  | line {s : List Char} (hlength : width < s.length) (hwhite : ∃ c ∈ s.take width, white c)
      (hkept : Kept (rpartition white (s.take width)).2.2)
      (hrest : Wraps width ((rpartition white (s.take width)).2.2 ++ s.drop width)) : Wraps width s

-- A run of characters other than white space as long as a line stands at the end only.
def ShortWords (width : Nat) (s : List Char) : Prop :=
  ∀ pre run post, s = pre ++ run ++ post → (∀ c ∈ run, white c = false) → run.length = width →
    post = []

variable {s out result : List Char} {start_col max_col : Int} {start width fuel : Nat}

theorem white_NUL : white NUL = false := by decide

theorem white_of_blank {c : Char} (hblank : blank c) (hne : c ≠ NUL) : white c := by
  simpa [blank, hne] using hblank

theorem count_strip_le (s : List Char) : (strip blank s).count NUL ≤ s.count NUL := by
  obtain ⟨pre, post, hs, -⟩ := exists_strip blank s
  have hcount := congrArg (List.count NUL) hs
  rw [List.count_append, List.count_append] at hcount
  omega

-- The ends that strip takes away from what is kept.
theorem Kept.exists_white (h : Kept s) :
    ∃ pre post, s = pre ++ strip blank s ++ post ∧ (∀ c ∈ pre, white c) ∧ ∀ c ∈ post, white c := by
  obtain ⟨pre, post, hs, hpre, hpost⟩ := exists_strip blank s
  have hcount := congrArg (List.count NUL) hs
  rw [List.count_append, List.count_append, ← h] at hcount
  have hpre0 : NUL ∉ pre := List.count_eq_zero.mp (by omega)
  have hpost0 : NUL ∉ post := List.count_eq_zero.mp (by omega)
  exact ⟨pre, post, hs, fun c hc => white_of_blank (hpre c hc) fun hnul => hpre0 (hnul ▸ hc),
    fun c hc => white_of_blank (hpost c hc) fun hnul => hpost0 (hnul ▸ hc)⟩

theorem Kept.words_eq (h : Kept s) : words white (strip blank s) = words white s := by
  obtain ⟨pre, post, hs, hpre, hpost⟩ := h.exists_white
  conv_rhs => rw [hs, words_append_of_right hpost, words_append_of_left hpre]

theorem Kept.strip_eq (h : Kept s) (hs : ∀ c ∈ s, white c = false) : strip blank s = s := by
  obtain ⟨pre, post, heq, hpre, hpost⟩ := h.exists_white
  have hnil : ∀ t : List Char, (∀ c ∈ t, c ∈ s) → (∀ c ∈ t, white c) → t = [] := by
    intro t hmem hwhite
    rw [List.eq_nil_iff_forall_not_mem]
    intro c hc
    have := hs c (hmem c hc)
    rw [hwhite c hc] at this
    contradiction
  have hprenil : pre = [] := hnil pre (fun c hc => by rw [heq]; simp [hc]) hpre
  have hpostnil : post = [] := hnil post (fun c hc => by rw [heq]; simp [hc]) hpost
  rw [hprenil, hpostnil, List.nil_append, List.append_nil] at heq
  exact heq.symm

theorem kept_of_not_mem (h : NUL ∉ s) : Kept s := by
  have hzero := List.count_eq_zero.mpr h
  have hle := count_strip_le s
  rw [Kept]
  omega

theorem from_index_natCast (hlength : width ≤ s.length) :
    from_index s width = some (s.drop width) := by
  simp [from_index, hlength]

-- One turn of the loop, and the last one.
theorem wrap_lines_of_lt (hlength : width < s.length) :
    wrap_lines start width (fuel + 1) s out =
      wrap_lines start width fuel
        (strip blank (rpartition white (s.take width)).2.2 ++ s.drop width)
        (out ++ ((rpartition white (s.take width)).1 ++ '\n' :: List.replicate start ' ')) := by
  have hlt : (width : Int) < s.length := by omega
  have hfront : until_index s width = s.take width := by simp [until_index]
  rw [wrap_lines, if_pos hlt]
  simp [hfront, from_index_natCast hlength.le]

-- The first indentation has a negative length.
theorem wrap_lines_of_neg (hstart : start_col < 0) (hlength : width < s.length) :
    wrap_lines start_col width fuel s out ≠ some (.ok result) := by
  intro h
  cases fuel with
  | zero => exact absurd h (by simp [wrap_lines])
  | succ fuel =>
      have hlt : (width : Int) < s.length := by omega
      rw [wrap_lines, if_pos hlt] at h
      simp [from_index_natCast hlength.le, hstart] at h

theorem wrap_lines_of_le (hlength : s.length ≤ width) :
    wrap_lines start_col width (fuel + 1) s out = some (.ok (out ++ strip blank s)) := by
  have hnot : ¬(width : Int) < s.length := by omega
  rw [wrap_lines, if_neg hnot]

-- What the loop adds to a string that wraps.
theorem Wraps.exists_lines (h : Wraps width s) (start : Nat) :
    ∃ fuel lines, (∀ out, wrap_lines start width fuel s out = some (.ok (out ++ lines))) ∧
      words white lines = words white s := by
  induction h with
  | last hlength hkept =>
      exact ⟨1, _, fun out => wrap_lines_of_le hlength, hkept.words_eq⟩
  | @line s hlength hwhite hkept hrest ih =>
      obtain ⟨fuel, lines, hlines, hwords⟩ := ih
      obtain ⟨front, c, piece, hwindow, hc, hpiece, hparts⟩ | ⟨hnone, -⟩ :=
        rpartition_cases white (s.take width)
      · rw [hparts] at hkept hlines hwords
        have hstrip := hkept.strip_eq hpiece
        refine ⟨fuel + 1, front ++ '\n' :: (List.replicate start ' ' ++ lines), fun out => ?_, ?_⟩
        · rw [wrap_lines_of_lt hlength, hparts, hstrip, hlines]
          simp
        · have hindent : ∀ d ∈ List.replicate start ' ', white d := by
            intro d hd
            rw [List.eq_of_mem_replicate hd]
            decide
          calc words white (front ++ '\n' :: (List.replicate start ' ' ++ lines))
              = words white front ++ words white (piece ++ s.drop width) := by
                rw [words_append_cons (by decide), words_append_of_left hindent, hwords]
            _ = words white (front ++ c :: (piece ++ s.drop width)) := (words_append_cons hc).symm
            _ = words white s := by
                rw [← List.cons_append, ← List.append_assoc, ← hwindow, List.take_append_drop]
      · obtain ⟨c, hmem, hc⟩ := hwhite
        rw [hnone c hmem] at hc
        contradiction

theorem count_parts (s : List Char) :
    (rpartition white s).1.count NUL + (rpartition white s).2.2.count NUL = s.count NUL := by
  obtain ⟨front, c, piece, hs, hc, -, hparts⟩ | ⟨-, hparts⟩ := rpartition_cases white s
  · have hne : c ≠ NUL := by
      rintro rfl
      simp [white_NUL] at hc
    rw [hparts, hs, List.count_append, List.count_cons_of_ne hne]
  · simp [hparts]

theorem count_turn (s out : List Char) (start width : Nat) :
    (out ++ ((rpartition white (s.take width)).1 ++ '\n' :: List.replicate start ' ')).count NUL +
      (rpartition white (s.take width)).2.2.count NUL + (s.drop width).count NUL =
        out.count NUL + s.count NUL := by
  have hindent : ('\n' :: List.replicate start ' ').count NUL = 0 := by
    rw [List.count_cons_of_ne (by decide), List.count_replicate, if_neg (by decide)]
  have hparts := count_parts (s.take width)
  have hsplit : (s.take width).count NUL + (s.drop width).count NUL = s.count NUL := by
    rw [← List.count_append, List.take_append_drop]
  rw [List.count_append, List.count_append, hindent]
  omega

-- The loop never adds a NUL.
theorem count_wrap_lines (h : wrap_lines start width fuel s out = some (.ok result)) :
    result.count NUL ≤ out.count NUL + s.count NUL := by
  induction fuel generalizing s out with
  | zero => exact absurd h (by simp [wrap_lines])
  | succ fuel ih =>
      by_cases hlength : width < s.length
      · rw [wrap_lines_of_lt hlength] at h
        have hle := ih h
        have hturn := count_turn s out start width
        have hstrip := count_strip_le (rpartition white (s.take width)).2.2
        rw [@List.count_append _ _ _ (strip blank _)] at hle
        omega
      · rw [wrap_lines_of_le (by omega)] at h
        obtain rfl := Except.ok.inj (Option.some.inj h)
        have hstrip := count_strip_le s
        rw [List.count_append]
        omega

-- Where no NUL has been lost, the loop went from one line to the next as `Wraps` has it. A
-- window without white space leaves the string as it is, so the induction is on the fuel.
theorem wraps_of_wrap_lines (h : wrap_lines start width fuel s out = some (.ok result))
    (hcount : out.count NUL + s.count NUL ≤ result.count NUL) : Wraps width s := by
  induction fuel generalizing s out with
  | zero => exact absurd h (by simp [wrap_lines])
  | succ fuel ih =>
      by_cases hlength : width < s.length
      · rw [wrap_lines_of_lt hlength] at h
        have hle := count_wrap_lines h
        have hturn := count_turn s out start width
        have hstrip := count_strip_le (rpartition white (s.take width)).2.2
        rw [@List.count_append _ _ _ (strip blank _)] at hle
        have hkept : Kept (rpartition white (s.take width)).2.2 := by
          rw [Kept]
          omega
        have hpiece : ∀ d ∈ (rpartition white (s.take width)).2.2, white d = false := by
          obtain ⟨_, _, _, -, -, hpiece, hparts⟩ | ⟨hnone, hparts⟩ :=
            rpartition_cases white (s.take width)
          · rwa [hparts]
          · rwa [hparts]
        rw [hkept.strip_eq hpiece] at h
        have hrest := ih h (by rw [@List.count_append _ _ _ (rpartition white _).2.2]; omega)
        obtain ⟨front, c, piece, hwindow, hc, -, -⟩ | ⟨hnone, hparts⟩ :=
          rpartition_cases white (s.take width)
        · exact .line hlength ⟨c, by rw [hwindow]; simp, hc⟩ hkept hrest
        · rwa [hparts, List.take_append_drop] at hrest
      · rw [wrap_lines_of_le (by omega)] at h
        obtain rfl := Except.ok.inj (Option.some.inj h)
        have hstrip := count_strip_le s
        rw [List.count_append] at hcount
        exact .last (by omega) (by rw [Kept]; omega)

theorem exists_wrap_lines_iff (s : List Char) (start width : Nat) :
    (∃ fuel result, wrap_lines start width fuel s [] = some (.ok result) ∧
      words white result = words white s) ↔ Wraps width s := by
  constructor
  · rintro ⟨fuel, result, hrun, hwords⟩
    refine wraps_of_wrap_lines hrun ?_
    rw [← count_words white_NUL result, hwords, count_words white_NUL]
    simp
  · intro h
    obtain ⟨fuel, lines, hlines, hwords⟩ := h.exists_lines start
    exact ⟨fuel, lines, by simpa using hlines [], hwords⟩

theorem keepsWords_iff_wraps (hcols : start_col < max_col) :
    KeepsWords s start_col max_col ↔
      s.length ≤ max_col - start_col ∨ 0 ≤ start_col ∧ Wraps (max_col - start_col).toNat s := by
  obtain ⟨width, hwidth⟩ := Int.eq_ofNat_of_zero_le (a := max_col - start_col) (by omega)
  simp only [KeepsWords, wrap_text, hwidth, Int.toNat_natCast, Int.ofNat_le]
  by_cases hshort : s.length ≤ width
  · simp [hshort]
  · simp only [hshort, if_false, false_or]
    by_cases hstart : 0 ≤ start_col
    · obtain ⟨start, rfl⟩ := Int.eq_ofNat_of_zero_le hstart
      rw [exists_wrap_lines_iff]
      exact ⟨fun h => ⟨hstart, h⟩, fun h => h.2⟩
    · constructor
      · rintro ⟨fuel, result, hrun, -⟩
        exact absurd hrun (wrap_lines_of_neg (by omega) (by omega))
      · exact fun h => absurd h.1 hstart

theorem ShortWords.append (h : ShortWords width s) {pre post : List Char} (hs : s = pre ++ post) :
    ShortWords width post := by
  intro pre' run post' hpost
  exact h (pre ++ pre') run post' (by rw [hs, hpost]; simp)

theorem wraps_of_shortWords (hNUL : NUL ∉ s) (h : ShortWords width s) : Wraps width s := by
  induction hn : s.length using Nat.strong_induction_on generalizing s with
  | _ n ih =>
      by_cases hlength : s.length ≤ width
      · exact .last hlength (kept_of_not_mem hNUL)
      · have hsplit := List.take_append_drop width s
        obtain ⟨front, c, piece, hwindow, hc, hpiece, hparts⟩ | ⟨hnone, -⟩ :=
          rpartition_cases white (s.take width)
        · have hs : s = (front ++ [c]) ++ (piece ++ s.drop width) := by
            conv_lhs => rw [← hsplit, hwindow]
            simp
          have hrestNUL : NUL ∉ piece ++ s.drop width := fun hmem => hNUL (by
            rw [hs]
            exact List.mem_append_right _ hmem)
          refine .line (by omega) ⟨c, by rw [hwindow]; simp, hc⟩ ?_ ?_
          · rw [hparts]
            exact kept_of_not_mem fun hmem => hrestNUL (List.mem_append_left _ hmem)
          · rw [hparts]
            refine ih _ ?_ hrestNUL (h.append hs) rfl
            have hlong := congrArg List.length hs
            rw [List.length_append, List.length_append, List.length_singleton] at hlong
            change (piece ++ s.drop width).length < n
            omega
        · have hempty := h [] (s.take width) (s.drop width) (by simp) hnone
            (by rw [List.length_take]; omega)
          rw [List.drop_eq_nil_iff] at hempty
          exact absurd hempty hlength

theorem Wraps.shortWords (h : Wraps width s) : ShortWords width s := by
  induction h with
  | last hlength _ =>
      intro pre run post hs _ hrun
      rw [hs, List.length_append, List.length_append] at hlength
      exact List.length_eq_zero_iff.mp (by omega)
  | @line s hlength hwhite _ _ ih =>
      intro pre run post hs hrun hwidth
      obtain ⟨front, c, piece, hwindow, hc, -, hparts⟩ | ⟨hnone, -⟩ :=
        rpartition_cases white (s.take width)
      · rw [hparts] at ih
        have hcut : s = (front ++ [c]) ++ (piece ++ s.drop width) := by
          conv_lhs => rw [← List.take_append_drop width s, hwindow]
          simp
        have hwindowlength : front.length + 1 + piece.length = width := by
          have := congrArg List.length hwindow
          rw [List.length_take, List.length_append, List.length_cons] at this
          omega
        have hrun' : front ++ c :: (piece ++ s.drop width) = pre ++ (run ++ post) := by
          rw [← List.append_assoc, ← hs]
          conv_rhs => rw [hcut]
          simp
        obtain ⟨mid, -, hrest⟩ | ⟨mid, hfront, -⟩ := run_cases hrun' hc hrun
        · exact ih mid run post (by rw [hrest, List.append_assoc]) hrun hwidth
        · -- the line would have to be longer than its window
          have hlong := congrArg List.length hfront
          rw [List.length_append, List.length_append] at hlong
          omega
      · obtain ⟨c, hmem, hc⟩ := hwhite
        rw [hnone c hmem] at hc
        contradiction

-- A window that nothing is cut or stripped from comes back unchanged, so that there is no end.
theorem wrap_lines_eq_none (hlength : width < s.length)
    (hwindow : ∀ c ∈ s.take width, white c = false)
    (hstrip : strip blank (s.take width) = s.take width) (fuel : Nat) (out : List Char) :
    wrap_lines start width fuel s out = none := by
  obtain ⟨front, c, piece, hcut, hc, -⟩ | ⟨-, hparts⟩ := rpartition_cases white (s.take width)
  · have hnot := hwindow c (by rw [hcut]; simp)
    rw [hc] at hnot
    contradiction
  · induction fuel generalizing out with
    | zero => rfl
    | succ fuel ih =>
        rw [wrap_lines_of_lt hlength, hparts, hstrip, List.take_append_drop]
        exact ih _

-- Without a NUL in the string, it's only about the words that are too long.
theorem keepsWords_iff (s : List Char) (hcols : start_col < max_col) :
    (KeepsWords s start_col max_col ↔
      s.length ≤ max_col - start_col ∨ 0 ≤ start_col ∧ Wraps (max_col - start_col).toNat s) ∧
    (NUL ∉ s → (KeepsWords s start_col max_col ↔
      s.length ≤ max_col - start_col ∨ 0 ≤ start_col ∧ ShortWords (max_col - start_col).toNat s)) := by
  refine ⟨keepsWords_iff_wraps hcols, fun hNUL => ?_⟩
  rw [keepsWords_iff_wraps hcols]
  exact or_congr_right (and_congr_right fun _ => ⟨Wraps.shortWords, wraps_of_shortWords hNUL⟩)

-- "ab cd" in four columns.
theorem keepsWords_two_lines : KeepsWords ['a', 'b', ' ', 'c', 'd'] 2 6 := by
  refine (keepsWords_iff ['a', 'b', ' ', 'c', 'd'] (by decide)).1.mpr (.inr ⟨by decide, ?_⟩)
  exact .line (by decide) ⟨' ', by simp, by decide⟩ (by unfold Kept; decide) (.last (by decide) (by unfold Kept; decide))

-- A word of four characters in three columns.
theorem not_keepsWords_long_word :
    ¬∀ (s : List Char) (start_col max_col : Int), start_col < max_col →
      KeepsWords s start_col max_col := by
  intro h
  obtain ⟨fuel, out, hrun, -⟩ := h ['a', 'b', 'c', 'd'] 0 3 (by decide)
  have hwindow : ∀ c ∈ ['a', 'b', 'c'], white c = false := by
    refine List.forall_mem_cons.mpr ⟨by decide, List.forall_mem_cons.mpr ⟨by decide, ?_⟩⟩
    exact List.forall_mem_singleton.mpr (by decide)
  have hnone := @wrap_lines_eq_none ['a', 'b', 'c', 'd'] 0 3 (by decide) hwindow (by decide) fuel []
  exact absurd (hrun.symm.trans hnone) (by simp)

end RoboCrisp.Tools
