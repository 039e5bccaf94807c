import RoboCrisp.Comms.APIElement.Lemmas
import RoboCrisp.Comms.TypedDeclaration.Equality

namespace RoboCrisp.Comms

open RoboCrisp.Stream RoboCrisp.Util

def charsOf : Option CString → Bytes
  | none => []
  | some string => string.chars

-- The three strings that a constructor takes. Each length goes into a byte.
structure APIStrings where
  symbol : Option CString
  use : Option CString
  description : Option CString
  symbol_le : lengthOf symbol ≤ 255
  use_le : lengthOf use ≤ 255
  description_le : lengthOf description ≤ 255

-- The string is not there, or has a character.
def NotEmpty (string : Option CString) : Prop := ∀ text, string = some text → text.chars ≠ []

namespace APIStrings

def contents (strings : APIStrings) : APIContents where
  symbol := charsOf strings.symbol
  use := charsOf strings.use
  description := charsOf strings.description

-- No string is there without a character in it.
structure NoneEmpty (strings : APIStrings) : Prop where
  symbol : NotEmpty strings.symbol
  use : NotEmpty strings.use
  description : NotEmpty strings.description

-- Every string has characters, or none has.
def AllOrNone (strings : APIStrings) : Prop :=
  (charsOf strings.symbol ≠ [] ∧ charsOf strings.use ≠ [] ∧ charsOf strings.description ≠ []) ∨
    (charsOf strings.symbol = [] ∧ charsOf strings.use = [] ∧ charsOf strings.description = [])

end APIStrings

theorem length_charsOf (string : Option CString) : (charsOf string).length = lengthOf string := by
  cases string <;> rfl

theorem no_nul_charsOf (string : Option CString) : 0 ∉ charsOf string := by
  cases string with
  | none => exact List.not_mem_nil
  | some string => exact string.no_nul

theorem APIStrings.allSendable (strings : APIStrings) : strings.contents.AllSendable where
  symbol := ⟨(length_charsOf _).trans_lt (Nat.lt_succ_of_le strings.symbol_le), no_nul_charsOf _⟩
  use := ⟨(length_charsOf _).trans_lt (Nat.lt_succ_of_le strings.use_le), no_nul_charsOf _⟩
  description :=
    ⟨(length_charsOf _).trans_lt (Nat.lt_succ_of_le strings.description_le), no_nul_charsOf _⟩

-- A string from a constructor: no length without a pointer, and as many characters behind the
-- pointer as the length says. The NUL behind them may be missing.
structure APIString.Given (string : APIString) : Prop where
  absent : string.pointer = none → string.length = 0
  present : ∀ block, string.pointer = some block →
    ∃ chars, 0 ∉ chars ∧ chars.length = string.length ∧ chars <+: block

-- Where there is a pointer, there is a length.
def APIString.Filled (string : APIString) : Prop := string.pointer ≠ none → string.length ≠ 0

namespace APIElement

structure Given (obj : APIElement) : Prop where
  symbol : obj.symbol.Given
  use : obj.use.Given
  description : obj.description.Given

structure Filled (obj : APIElement) : Prop where
  symbol : obj.symbol.Filled
  use : obj.use.Filled
  description : obj.description.Filled

end APIElement

section Equal

variable {string other : APIString} {chars text block : Bytes}

-- The first NUL of a block stands no sooner than behind all the characters.
theorem length_le_of_nul (hnul : 0 ∉ chars) (hchars : chars <+: block) (htext : text ++ [0] <+: block) :
    chars.length ≤ text.length := by
  by_contra hlt
  have hle : (text ++ [0]).length ≤ chars.length := by
    rw [List.length_append, List.length_singleton]
    omega
  have hpre : text ++ [0] <+: chars := List.prefix_of_prefix_length_le htext hchars hle
  exact hnul (hpre.subset (by simp))

-- The string that compares equal to one from a constructor is at least as long.
theorem APIString.Says.size_le (h : other.Says chars) (hgiven : string.Given)
    (heq : APIElement.sameString other.pointer string.pointer = some true) :
    string.size ≤ other.size ∧ (other.size ≤ string.size → string.Filled) := by
  cases hpointer : string.pointer with
  | none =>
      have hzero : string.size = 0 := if_neg (not_not_intro (hgiven.absent hpointer))
      exact ⟨by omega, fun _ hne => absurd hpointer hne⟩
  | some block =>
      obtain ⟨given, hnul, hlength, hfront⟩ := hgiven.present block hpointer
      have hchars : chars ≠ [] := by
        intro hnil
        rw [h.absent hnil, hpointer] at heq
        cases heq
      obtain ⟨back, hother⟩ := h.present hchars
      rw [hother, hpointer] at heq
      obtain ⟨text, htext, hfirst, hsecond⟩ := strcmp_eq_true_iff.mp heq
      have hgiven_le : given.length ≤ text.length := length_le_of_nul hnul hfront hsecond
      have htext_le : text.length ≤ chars.length :=
        length_le_of_nul htext ((List.prefix_append text [0]).trans hfirst) ⟨back, by simp⟩
      have hother_size : other.size = chars.length + 1 := by
        rw [APIString.size, h.length_eq, if_pos (mt List.length_eq_zero_iff.mp hchars)]
      by_cases hzero : string.length = 0
      · have hsize : string.size = 0 := if_neg (not_not_intro hzero)
        exact ⟨by omega, fun hle => by omega⟩
      · have hsize : string.size = string.length + 1 := if_pos hzero
        exact ⟨by omega, fun _ _ => hzero⟩

theorem APIElement.eq_iff {obj ae : APIElement} : obj.eq ae = some true ↔
    sameString obj.symbol.pointer ae.symbol.pointer = some true ∧
      sameString obj.use.pointer ae.use.pointer = some true ∧
        sameString obj.description.pointer ae.description.pointer = some true := by
  rw [APIElement.eq, DataDeclaration.and_then_iff, DataDeclaration.and_then_iff]

-- An element that has been read and is equal to one from a constructor is announced with at
-- least as many bytes, and with more where the other one has a pointer to no characters.
theorem APIElement.Represents.encoded_size_le {obj ae : APIElement} {s : APIContents}
    (h : obj.Represents s) (hgiven : ae.Given) (heq : obj.eq ae = some true) :
    ae.get_encoded_size ≤ obj.get_encoded_size ∧
      (obj.get_encoded_size ≤ ae.get_encoded_size → ae.Filled) := by
  obtain ⟨hsymbol, huse, hdescription⟩ := APIElement.eq_iff.mp heq
  obtain ⟨hsymbol_le, hsymbol⟩ := h.symbol.size_le hgiven.symbol hsymbol
  obtain ⟨huse_le, huse⟩ := h.use.size_le hgiven.use huse
  obtain ⟨hdescription_le, hdescription⟩ := h.description.size_le hgiven.description hdescription
  simp only [get_encoded_size]
  refine ⟨by omega, fun hle => ⟨hsymbol ?_, huse ?_, hdescription ?_⟩⟩
  all_goals omega

end Equal

section Referred

theorem given_referred (string : Option CString) :
    APIString.Given ⟨string.map CString.block, lengthOf string⟩ := by
  cases string with
  | none => exact ⟨fun _ => rfl, nofun⟩
  | some string =>
      refine ⟨nofun, fun block hblock => ⟨string.chars, string.no_nul, rfl, ?_⟩⟩
      obtain rfl := Option.some.inj hblock
      exact List.prefix_append _ _

theorem says_referred {string : Option CString} (h : NotEmpty string) :
    APIString.Says ⟨string.map CString.block, lengthOf string⟩ (charsOf string) := by
  cases string with
  | none => exact ⟨rfl, fun _ => rfl, fun hne => absurd rfl hne⟩
  | some string => exact ⟨rfl, fun hnil => absurd hnil (h string rfl), fun _ => ⟨[], rfl⟩⟩

theorem notEmpty_of_filled {string : Option CString}
    (h : APIString.Filled ⟨string.map CString.block, lengthOf string⟩) : NotEmpty string := by
  rintro text rfl hnil
  exact h (by simp) (List.length_eq_zero_iff.mpr hnil)

variable {strings : APIStrings}

theorem APIElement.given_refer (strings : APIStrings) :
    (APIElement.refer strings.symbol strings.use strings.description).Given :=
  ⟨given_referred _, given_referred _, given_referred _⟩

theorem APIStrings.NoneEmpty.represents_refer (h : strings.NoneEmpty) :
    (APIElement.refer strings.symbol strings.use strings.description).Represents strings.contents :=
  ⟨says_referred h.symbol, says_referred h.use, says_referred h.description⟩

theorem APIElement.Filled.noneEmpty
    (h : (APIElement.refer strings.symbol strings.use strings.description).Filled) :
    strings.NoneEmpty :=
  ⟨notEmpty_of_filled h.symbol, notEmpty_of_filled h.use, notEmpty_of_filled h.description⟩

end Referred

section Copied

variable {string : Option CString} {block block' : Bytes} {sbuf : Nat}

theorem copyString_eq (block : Bytes) (sbuf : Nat) (string : Option CString) :
    copyString block sbuf string =
      if charsOf string = [] then some block else store block sbuf (charsOf string) := by
  cases string with
  | none => rfl
  | some string => exact if_congr List.length_eq_zero_iff rfl rfl

-- The characters come to stand at their place, and nothing in front of it changes.
theorem prefix_of_copyString (h : copyString block sbuf string = some block') :
    charsOf string <+: block'.drop sbuf ∧
      ∀ chars place, place + chars.length ≤ sbuf → chars <+: block.drop place →
        chars <+: block'.drop place := by
  rw [copyString_eq] at h
  by_cases hnil : charsOf string = []
  · rw [if_pos hnil] at h
    obtain rfl := Option.some.inj h
    exact ⟨hnil ▸ List.nil_prefix, fun _ _ _ hchars => hchars⟩
  · rw [if_neg hnil, store] at h
    obtain ⟨hroom, h⟩ := Option.ite_none_right_eq_some.mp h
    obtain rfl := Option.some.inj h
    have hlength : (block.take sbuf).length = sbuf := by
      rw [List.length_take]
      omega
    constructor
    · rw [List.append_assoc, List.drop_append_of_le_length (by omega), List.drop_of_length_le (by omega)]
      exact List.prefix_append _ _
    · intro chars place hplace hchars
      rw [List.append_assoc, List.drop_append_of_le_length (by omega), List.drop_take]
      refine List.IsPrefix.trans ?_ (List.prefix_append _ _)
      exact List.prefix_take_iff.mpr ⟨hchars, by omega⟩

variable {strings : APIStrings} {element : APIElement}

theorem given_of_placed {place : Nat} (h : charsOf string <+: block.drop place) :
    APIString.Given ⟨some (block.drop place), lengthOf string⟩ := by
  refine ⟨nofun, fun block' hblock => ⟨charsOf string, no_nul_charsOf string,
    length_charsOf string, ?_⟩⟩
  obtain rfl := Option.some.inj hblock
  exact h

-- Without a character there are no pointers either. Otherwise all three pointers lead into the
-- block that the strings have been copied to.
theorem APIElement.cases_copied
    (h : APIElement.copied strings.symbol strings.use strings.description = some element) :
    (element = .empty ∧ lengthOf strings.symbol = 0 ∧ lengthOf strings.use = 0 ∧
        lengthOf strings.description = 0) ∨
      ∃ block : Bytes, charsOf strings.symbol <+: block.drop 0 ∧
        charsOf strings.use <+: block.drop (lengthOf strings.symbol + 1) ∧
        charsOf strings.description <+:
          block.drop (lengthOf strings.symbol + 1 + (lengthOf strings.use + 1)) ∧
        element = {
          symbol := ⟨some (block.drop 0), lengthOf strings.symbol⟩
          use := ⟨some (block.drop (lengthOf strings.symbol + 1)), lengthOf strings.use⟩
          description :=
            ⟨some (block.drop (lengthOf strings.symbol + 1 + (lengthOf strings.use + 1))),
              lengthOf strings.description⟩
          owns_api_strings := true } := by
  unfold APIElement.copied at h
  by_cases htotal :
      lengthOf strings.symbol + lengthOf strings.use + lengthOf strings.description > 0
  · rw [if_pos htotal] at h
    obtain ⟨first, hfirst, h⟩ := Option.bind_eq_some_iff.mp h
    obtain ⟨second, hsecond, h⟩ := Option.bind_eq_some_iff.mp h
    obtain ⟨third, hthird, h⟩ := Option.bind_eq_some_iff.mp h
    obtain rfl := Option.some.inj h
    have hsymbol := length_charsOf strings.symbol
    have huse := length_charsOf strings.use
    obtain ⟨hplaced, -⟩ := prefix_of_copyString hfirst
    obtain ⟨hplaced', hkept'⟩ := prefix_of_copyString hsecond
    obtain ⟨hplaced'', hkept''⟩ := prefix_of_copyString hthird
    refine .inr ⟨third, ?_, ?_, hplaced'', rfl⟩
    · exact hkept'' _ 0 (by omega) (hkept' _ 0 (by omega) hplaced)
    · exact hkept'' _ _ (by omega) hplaced'
  · rw [if_neg htotal] at h
    exact .inl ⟨(Option.some.inj h).symm, by omega, by omega, by omega⟩

theorem APIElement.given_of_copied
    (h : APIElement.copied strings.symbol strings.use strings.description = some element) :
    element.Given := by
  obtain ⟨rfl, -⟩ | ⟨block, hsymbol, huse, hdescription, rfl⟩ := APIElement.cases_copied h
  · exact ⟨⟨fun _ => rfl, nofun⟩, ⟨fun _ => rfl, nofun⟩, ⟨fun _ => rfl, nofun⟩⟩
  · exact ⟨given_of_placed hsymbol, given_of_placed huse, given_of_placed hdescription⟩

theorem ne_nil_of_lengthOf (h : lengthOf string ≠ 0) : charsOf string ≠ [] := by
  rw [← length_charsOf] at h
  exact mt List.length_eq_zero_iff.mpr h

theorem nil_of_lengthOf (h : lengthOf string = 0) : charsOf string = [] := by
  rw [← length_charsOf] at h
  exact List.length_eq_zero_iff.mp h

theorem APIElement.Filled.allOrNone (hfilled : element.Filled)
    (h : APIElement.copied strings.symbol strings.use strings.description = some element) :
    strings.AllOrNone := by
  obtain ⟨-, hsymbol, huse, hdescription⟩ | ⟨block, -, -, -, rfl⟩ := APIElement.cases_copied h
  · exact .inr ⟨nil_of_lengthOf hsymbol, nil_of_lengthOf huse, nil_of_lengthOf hdescription⟩
  · exact .inl ⟨ne_nil_of_lengthOf (hfilled.symbol nofun), ne_nil_of_lengthOf (hfilled.use nofun),
      ne_nil_of_lengthOf (hfilled.description nofun)⟩

theorem copyString_filled {front : Bytes} {spare place : Nat} (hplace : front.length = place)
    (hchars : charsOf string ≠ []) (h : (spaced (charsOf string)).length ≤ spare) :
    copyString (APIElement.filled front spare).bytes place string =
      some (APIElement.filled (front ++ spaced (charsOf string))
        (spare - (spaced (charsOf string)).length)).bytes := by
  subst hplace
  rw [copyString_eq, if_neg hchars]
  exact APIElement.store_filled front spare hchars h

theorem length_spaced_charsOf (string : Option CString) : (spaced (charsOf string)).length =
    if lengthOf string ≠ 0 then lengthOf string + 1 else 0 := by
  rw [length_spaced, length_charsOf]

theorem says_copied {front back : Bytes} {place : Nat} (hchars : charsOf string ≠ [])
    (hplace : front.length = place) (hblock : block = front ++ (spaced (charsOf string) ++ back)) :
    APIString.Says ⟨some (block.drop place), lengthOf string⟩ (charsOf string) := by
  have hsays := APIElement.says_placeOf hblock
  rwa [APIElement.placeOf, if_neg hchars, hplace, length_charsOf] at hsays

-- All three strings go into the block one after the other.
theorem APIElement.exists_copied_of_all (hsymbol : charsOf strings.symbol ≠ [])
    (huse : charsOf strings.use ≠ []) (hdescription : charsOf strings.description ≠ []) :
    ∃ element, APIElement.copied strings.symbol strings.use strings.description = some element ∧
      element.Represents strings.contents := by
  have hpos : lengthOf strings.symbol ≠ 0 := mt nil_of_lengthOf hsymbol
  have hlength := (length_spaced_charsOf strings.symbol).trans (if_pos hpos)
  have hlength' := (length_spaced_charsOf strings.use).trans (if_pos (mt nil_of_lengthOf huse))
  let size := (spaced (charsOf strings.symbol)).length + (spaced (charsOf strings.use)).length +
    (spaced (charsOf strings.description)).length
  let front := spaced (charsOf strings.symbol)
  let front' := front ++ spaced (charsOf strings.use)
  let spare := size - front.length - (spaced (charsOf strings.use)).length -
    (spaced (charsOf strings.description)).length
  let block := (APIElement.filled (front' ++ spaced (charsOf strings.description)) spare).bytes
  have hsize : size = front.length + (spaced (charsOf strings.use)).length +
      (spaced (charsOf strings.description)).length := rfl
  have hplace : front'.length = lengthOf strings.symbol + 1 + (lengthOf strings.use + 1) := by
    rw [List.length_append, hlength, hlength']
  have hfirst : copyString (List.replicate size 0) 0 strings.symbol =
      some (APIElement.filled front (size - front.length)).bytes :=
    @copyString_filled _ [] _ _ rfl hsymbol (by omega)
  have hsecond : copyString (APIElement.filled front (size - front.length)).bytes
      (lengthOf strings.symbol + 1) strings.use = some (APIElement.filled front'
        (size - front.length - (spaced (charsOf strings.use)).length)).bytes :=
    copyString_filled hlength huse (by omega)
  have hthird : copyString (APIElement.filled front'
      (size - front.length - (spaced (charsOf strings.use)).length)).bytes
      (lengthOf strings.symbol + 1 + (lengthOf strings.use + 1)) strings.description =
        some block :=
    copyString_filled hplace hdescription (by omega)
  have hcopied : APIElement.copied strings.symbol strings.use strings.description = some {
      symbol := ⟨some block, lengthOf strings.symbol⟩
      use := ⟨some (block.drop (lengthOf strings.symbol + 1)), lengthOf strings.use⟩
      description :=
        ⟨some (block.drop (lengthOf strings.symbol + 1 + (lengthOf strings.use + 1))),
          lengthOf strings.description⟩
      owns_api_strings := true } := by
    unfold APIElement.copied
    rw [if_pos (by omega)]
    simp only [← length_spaced_charsOf]
    change (copyString (List.replicate size 0) 0 strings.symbol).bind _ = _
    rw [hfirst, Option.bind_some]
    change (copyString _ _ strings.use).bind _ = _
    rw [hsecond, Option.bind_some]
    change (copyString _ _ strings.description).bind _ = _
    rw [hthird]
    rfl
  have hblock : block = front ++ (spaced (charsOf strings.use) ++
      (spaced (charsOf strings.description) ++ List.replicate spare 0)) := by
    simp [block, front', APIElement.filled]
  refine ⟨_, hcopied, ?_, ?_, ?_⟩
  · exact @says_copied _ _ [] _ _ hsymbol rfl hblock
  · exact says_copied huse hlength hblock
  · exact says_copied hdescription hplace (hblock.trans (List.append_assoc front _ _).symm)

theorem APIElement.exists_copied_of_none (hsymbol : charsOf strings.symbol = [])
    (huse : charsOf strings.use = []) (hdescription : charsOf strings.description = []) :
    ∃ element, APIElement.copied strings.symbol strings.use strings.description = some element ∧
      element.Represents strings.contents := by
  have hzero : ¬lengthOf strings.symbol + lengthOf strings.use + lengthOf strings.description > 0 := by
    rw [← length_charsOf, ← length_charsOf, ← length_charsOf, hsymbol, huse, hdescription]
    decide
  refine ⟨.empty, ?_, ?_⟩
  · rw [APIElement.copied, if_neg hzero]
  · refine ⟨⟨?_, fun _ => rfl, absurd hsymbol⟩, ⟨?_, fun _ => rfl, absurd huse⟩,
      ⟨?_, fun _ => rfl, absurd hdescription⟩⟩
    · rw [APIStrings.contents, hsymbol]
      rfl
    · rw [APIStrings.contents, huse]
      rfl
    · rw [APIStrings.contents, hdescription]
      rfl

theorem APIStrings.AllOrNone.exists_copied (h : strings.AllOrNone) :
    ∃ element, APIElement.copied strings.symbol strings.use strings.description = some element ∧
      element.Represents strings.contents := by
  obtain ⟨hsymbol, huse, hdescription⟩ | ⟨hsymbol, huse, hdescription⟩ := h
  · exact APIElement.exists_copied_of_all hsymbol huse hdescription
  · exact APIElement.exists_copied_of_none hsymbol huse hdescription

end Copied

end RoboCrisp.Comms
