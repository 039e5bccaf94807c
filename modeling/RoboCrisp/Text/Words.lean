import Mathlib.Data.List.DropRight

namespace RoboCrisp.Text

variable {α : Type*} {sep p : α → Bool} {s t : List α}

-- The longest runs without a separator.
def words (sep : α → Bool) (s : List α) : List (List α) :=
  (s.splitOnP sep).filter fun run => !run.isEmpty

theorem words_nil : words sep [] = [] := by
  simp [words]

theorem words_append_cons {c : α} (hc : sep c) :
    words sep (s ++ c :: t) = words sep s ++ words sep t := by
  rw [words, List.splitOnP_append_cons _ _ hc, List.filter_append]
  rfl

theorem words_cons {c : α} (hc : sep c) : words sep (c :: t) = words sep t := by
  have h := words_append_cons (s := []) (t := t) hc
  rwa [words_nil, List.nil_append, List.nil_append] at h

theorem words_append_of_left (h : ∀ c ∈ s, sep c) : words sep (s ++ t) = words sep t := by
  induction s with
  | nil => rfl
  | cons c s ih =>
      rw [List.cons_append, words_cons (h c (by simp))]
      exact ih fun c hc => h c (List.mem_cons_of_mem _ hc)

theorem words_append_of_right (h : ∀ c ∈ t, sep c) : words sep (s ++ t) = words sep s := by
  cases t with
  | nil => rw [List.append_nil]
  | cons c t =>
      have ht := words_append_of_left (t := []) fun c hc => h c (List.mem_cons_of_mem _ hc)
      rw [words_append_cons (h c (by simp)), ← List.append_nil t, ht, words_nil, List.append_nil]

-- No character that isn't a separator is lost.
theorem flatten_words (sep : α → Bool) (s : List α) :
    (words sep s).flatten = s.filter fun c => !sep c := by
  rw [words, List.flatten_filter_not_isEmpty]
  induction s with
  | nil => rfl
  | cons c s ih =>
      rw [List.splitOnP_cons_eq_if_modifyHead]
      cases hc : sep c with
      | true => simpa [hc] using ih
      | false =>
          cases hruns : s.splitOnP sep with
          | nil => exact absurd hruns (List.splitOnP_ne_nil _ _)
          | cons run runs =>
              rw [hruns] at ih
              simpa [hc] using ih

theorem count_words [BEq α] [LawfulBEq α] {c : α} (hc : sep c = false) (s : List α) :
    (words sep s).flatten.count c = s.count c := by
  rw [flatten_words, List.count_filter (by simp [hc])]

-- A run without a separator lies on one side of each separator.
theorem run_cases {front rest pre run post : List α} {c : α}
    (h : front ++ c :: rest = pre ++ (run ++ post)) (hc : sep c) (hrun : ∀ d ∈ run, sep d = false) :
    (∃ mid, pre = front ++ c :: mid ∧ rest = mid ++ (run ++ post)) ∨
      ∃ mid, front = pre ++ (run ++ mid) ∧ post = mid ++ c :: rest := by
  have hnotin : c ∉ run := fun hmem => by simpa [hc] using hrun c hmem
  obtain ⟨mid, hpre, hrest⟩ | ⟨mid, hfront, hrest⟩ := List.append_eq_append_iff.mp h
  · cases mid with
    | nil =>
        cases run with
        | nil => exact .inr ⟨[], by simpa using hpre.symm, by simpa using hrest.symm⟩
        | cons d run =>
            obtain ⟨rfl, -⟩ := List.cons.inj hrest
            exact absurd List.mem_cons_self hnotin
    | cons d mid =>
        obtain ⟨rfl, htail⟩ := List.cons.inj hrest
        exact .inl ⟨mid, hpre, htail⟩
  · obtain ⟨tail, rfl, hpost⟩ | ⟨tail, hrun', htail⟩ := List.append_eq_append_iff.mp hrest
    · exact .inr ⟨tail, hfront, hpost⟩
    · cases tail with
      | nil =>
          rw [List.append_nil] at hrun'
          exact .inr ⟨[], by rw [hfront, hrun', List.append_nil], htail.symm⟩
      | cons d tail =>
          obtain ⟨rfl, -⟩ := List.cons.inj htail
          exact absurd (by rw [hrun']; simp) hnotin

-- What comes before the last separator, the separator, and what comes after it.
def rpartition (sep : α → Bool) (s : List α) : List α × List α × List α :=
  let front := s.rdropWhile fun c => !sep c
  match front.getLast? with
  | some c => (front.dropLast, [c], s.rtakeWhile fun c => !sep c)
  | none => ([], [], s)

theorem rpartition_cases (sep : α → Bool) (s : List α) :
    (∃ front c piece, s = front ++ c :: piece ∧ sep c ∧ (∀ d ∈ piece, sep d = false) ∧
      rpartition sep s = (front, [c], piece)) ∨
    (∀ d ∈ s, sep d = false) ∧ rpartition sep s = ([], [], s) := by
  have hsplit : s.rdropWhile (fun c => !sep c) ++ s.rtakeWhile (fun c => !sep c) = s :=
    List.rdropWhile_append_rtakeWhile
  cases hlast : (s.rdropWhile fun c => !sep c).getLast? with
  | none =>
      refine .inr ⟨fun d hd => ?_, by rw [rpartition, hlast]⟩
      rw [List.getLast?_eq_none_iff, List.rdropWhile_eq_nil_iff] at hlast
      simpa using hlast d hd
  | some c =>
      obtain ⟨front, hfront⟩ := List.getLast?_eq_some_iff.mp hlast
      have hne : (s.rdropWhile fun c => !sep c) ≠ [] := by simp [hfront]
      have hnot := List.rdropWhile_last_not (fun c => !sep c) s hne
      refine .inl ⟨front, c, s.rtakeWhile fun c => !sep c, ?_, ?_, fun d hd => ?_, ?_⟩
      · rw [← List.singleton_append, ← List.append_assoc, ← hfront, hsplit]
      · simpa [hfront] using hnot
      · simpa using List.mem_rtakeWhile_imp hd
      · rw [rpartition, hlast]
        simp [hfront]

-- Without the characters at both ends.
def strip (p : α → Bool) (s : List α) : List α := (s.dropWhile p).rdropWhile p

theorem exists_strip (p : α → Bool) (s : List α) :
    ∃ pre post, s = pre ++ strip p s ++ post ∧ (∀ c ∈ pre, p c) ∧ ∀ c ∈ post, p c := by
  refine ⟨s.takeWhile p, (s.dropWhile p).rtakeWhile p, ?_, fun c hc => List.mem_takeWhile_imp hc,
    fun c hc => List.mem_rtakeWhile_imp hc⟩
  rw [List.append_assoc, strip, List.rdropWhile_append_rtakeWhile, List.takeWhile_append_dropWhile]

end RoboCrisp.Text
