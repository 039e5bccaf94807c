import Mathlib.Data.List.TakeDrop
import RoboCrisp.Tools.OptionParser

namespace RoboCrisp.Tools

open RoboCrisp.Scan

variable {ε ε' : Type} {short_option_map long_option_map : OptionMap} {arg : Text}
  {next_arg : Option Text}

theorem received_agrees (option : ProgramOption) (argument : Option Text) :
    Call.Agrees (received option argument : Call Effect ε Unit)
      (received option argument : Call Effect ε' Unit) := .effect _

theorem warn_agrees (next_arg : Option Text) (text : String) :
    Call.Agrees (warn next_arg text : Call Effect ε Unit) (warn next_arg text : Call Effect ε' Unit) := by
  unfold warn
  split
  · exact .effect _
  · exact .pure _

theorem range_to_end {first : Nat} (h : first ≤ arg.length) :
    Ruby.range arg first (-1) = some (arg.drop first) := by
  rw [Ruby.range, if_pos h, if_pos (by omega)]
  have hlength : ((arg.length : Int) + -1 + 1).toNat = arg.length := by omega
  rw [hlength, List.take_length]

theorem range_to {first last : Nat} (hfirst : first ≤ arg.length) (hlast : 0 < last) :
    Ruby.range arg first ((last : Int) - 1) = some ((arg.take last).drop first) := by
  rw [Ruby.range, if_pos hfirst, if_neg (by omega)]
  have hlength : ((last : Int) - 1 + 1).toNat = last := by omega
  rw [hlength]

-- The two dashes are in front of every '='.
theorem two_le_of_idxOf? {i : Nat} (hfirst : arg[0]? = some '-') (hsecond : arg[1]? = some '-')
    (h : arg.idxOf? '=' = some i) : 2 ≤ i ∧ i < arg.length := by
  rw [List.idxOf?, List.findIdx?_eq_some_iff_getElem] at h
  obtain ⟨hlt, heq, -⟩ := h
  refine ⟨?_, hlt⟩
  have hget : arg[i]? = some '=' := by
    rw [List.getElem?_eq_getElem hlt, eq_of_beq heq]
  rcases i with _ | _ | i
  · exact absurd (hget.symm.trans hfirst) (by decide)
  · exact absurd (hget.symm.trans hsecond) (by decide)
  · omega

-- The name and the value of --name=value.
def split_long (arg : Text) : Text × Option Text :=
  match arg.idxOf? '=' with
  | none => (arg.drop 2, none)
  | some i => ((arg.take i).drop 2, some (arg.drop (i + 1)))

-- What a long option comes to, once it has been found.
def deliver_long (option : ProgramOption) (value next_arg : Option Text) (missing : ε) :
    Call Effect ε Nat :=
  match option.takes_argument, value, option.argument_optional with
  | false, _, _ => do
      received option none
      return 1
  | true, some value, _ => do
      received option (some value)
      return 1
  | true, none, true => do
      warn next_arg LONG_WARNING
      received option none
      return 1
  | true, none, false =>
      match next_arg with
      | none => .raise missing
      | some value => do
          received option (some value)
          return 2

def handle_long (long_option_map : OptionMap) (arg : Text) (next_arg : Option Text)
    (missing unknown : ε) : Call Effect ε Nat :=
  match long_option_map (some (split_long arg).1) with
  | none => .raise unknown
  | some option => deliver_long option (split_long arg).2 next_arg missing

theorem python_long_eq (long_option_map : OptionMap) (arg : Text) (next_arg : Option Text) :
    ∃ missing unknown, Python.handle_long_option long_option_map arg next_arg =
      handle_long long_option_map arg next_arg missing unknown := by
  refine ⟨.ValueError ("Missing required argument to `--" ++ String.ofList (split_long arg).1 ++ "'!"),
    .ValueError ("No such option, `--" ++ String.ofList (split_long arg).1 ++ "'!"), ?_⟩
  unfold Python.handle_long_option Python.find handle_long split_long deliver_long
  cases hindex : arg.idxOf? '=' with
  | none =>
      simp only [if_true]
      cases long_option_map (some (arg.drop 2)) with
      | none => rfl
      | some option =>
          cases htakes : option.takes_argument <;> cases hoptional : option.argument_optional <;>
            cases next_arg <;> simp [htakes, hoptional]
  | some i =>
      have hne : (i : Int) ≠ -1 := by omega
      have hnext : ((i : Int) + 1).toNat = i + 1 := by omega
      simp only [hne, if_false, Int.toNat_natCast, hnext]
      cases long_option_map (some ((arg.take i).drop 2)) with
      | none => rfl
      | some option =>
          cases htakes : option.takes_argument <;> cases hoptional : option.argument_optional <;>
            cases next_arg <;> simp [htakes, hoptional]

theorem ruby_long_eq (long_option_map : OptionMap) (next_arg : Option Text)
    (hfirst : arg[0]? = some '-') (hsecond : arg[1]? = some '-') :
    ∃ missing unknown, Ruby.handle_long_option long_option_map arg next_arg =
      handle_long long_option_map arg next_arg missing unknown := by
  have htwo : 2 ≤ arg.length := by
    obtain ⟨hlt, -⟩ := List.getElem?_eq_some_iff.mp hsecond
    omega
  refine ⟨⟨"Missing required argument to `--" ++ String.ofList (split_long arg).1 ++ "'!"⟩,
    ⟨"No such option, `--%s'!"⟩, ?_⟩
  unfold Ruby.handle_long_option handle_long split_long deliver_long
  rw [if_neg (by simp [hfirst, hsecond])]
  cases hindex : arg.idxOf? '=' with
  | none =>
      have hname : Ruby.range arg 2 (((0 : Nat) : Int) - 1) = some (arg.drop 2) := range_to_end htwo
      simp only [Option.getD_none, hname, if_true, Option.getD_some]
      cases long_option_map (some (arg.drop 2)) with
      | none => rfl
      | some option =>
          cases htakes : option.takes_argument <;> cases hoptional : option.argument_optional <;>
            cases next_arg <;> simp [htakes, hoptional]
  | some i =>
      obtain ⟨hlow, hlt⟩ := two_le_of_idxOf? hfirst hsecond hindex
      have hname : Ruby.range arg 2 ((i : Int) - 1) = some ((arg.take i).drop 2) :=
        range_to htwo (by omega)
      have hvalue : Ruby.range arg (i + 1) (-1) = some (arg.drop (i + 1)) :=
        range_to_end hlt
      have hne : i ≠ 0 := by omega
      simp only [Option.getD_some, hname, hvalue, hne, if_false]
      cases long_option_map (some ((arg.take i).drop 2)) with
      | none => rfl
      | some option =>
          cases htakes : option.takes_argument <;> cases hoptional : option.argument_optional <;>
            cases next_arg <;> simp [htakes, hoptional]

theorem deliver_long_agrees (option : ProgramOption) (value next_arg : Option Text) (missing : ε)
    (missing' : ε') : (deliver_long option value next_arg missing).Agrees
      (deliver_long option value next_arg missing') := by
  unfold deliver_long
  split
  · exact (received_agrees _ _).bind fun _ => .pure _
  · exact (received_agrees _ _).bind fun _ => .pure _
  · exact (warn_agrees _ _).bind fun _ => (received_agrees _ _).bind fun _ => .pure _
  · split
    · exact .raise _ _
    · exact (received_agrees _ _).bind fun _ => .pure _

theorem long_agrees (long_option_map : OptionMap) (next_arg : Option Text)
    (hfirst : arg[0]? = some '-') (hsecond : arg[1]? = some '-') :
    (Python.handle_long_option long_option_map arg next_arg).Agrees
      (Ruby.handle_long_option long_option_map arg next_arg) := by
  obtain ⟨missing, unknown, hpython⟩ := python_long_eq long_option_map arg next_arg
  obtain ⟨missing', unknown', hruby⟩ := ruby_long_eq long_option_map next_arg hfirst hsecond
  rw [hpython, hruby]
  unfold handle_long
  split
  · exact .raise _ _
  · exact deliver_long_agrees _ _ _ _ _

-- The two loops count from different values, which makes no difference after the first option.
theorem short_agrees (short_option_map : OptionMap) (next_arg : Option Text) (chars : Text)
    (consumed : Nat) (h : chars ≠ [] ∨ 0 < consumed) :
    (Python.short_options short_option_map next_arg chars consumed).Agrees
      (Ruby.short_options short_option_map next_arg chars (max 1 consumed)) := by
  induction chars generalizing consumed with
  | nil =>
      have hpos : 0 < consumed := h.resolve_left (not_not_intro rfl)
      rw [Python.short_options, Ruby.short_options, Nat.max_eq_right hpos]
      exact .pure _
  | cons c rest ih =>
      have hcount : ∀ n, 0 < n →
          max n (max 1 consumed) = max 1 (if n > consumed then n else consumed) := by
        intro n hn
        split <;> omega
      have hone : (if 1 > consumed then 1 else consumed) = max 1 consumed := by
        split <;> omega
      have hrest := ih (if 1 > consumed then 1 else consumed) (.inr (by split <;> omega))
      rw [← hcount 1 (by decide)] at hrest
      rw [Python.short_options, Ruby.short_options]
      cases short_option_map (some [c]) with
      | none => exact .raise _ _
      | some option =>
          simp only
          split
          · split
            · exact (warn_agrees _ _).bind fun _ => (received_agrees _ _).bind fun _ => hrest
            · split
              · refine (received_agrees _ _).bind fun _ => ?_
                rw [hone, ← Nat.max_assoc, Nat.max_self]
                exact .pure _
              · rename_i hnil
                obtain rfl := not_not.mp hnil
                cases next_arg with
                | none => exact .raise _ _
                | some value =>
                    refine (received_agrees _ _).bind fun _ => ?_
                    rw [hcount 2 (by decide), Python.short_options]
                    rw [Nat.max_eq_right (by split <;> omega)]
                    exact .pure _
          · exact (received_agrees _ _).bind fun _ => hrest

theorem check_agrees (short_option_map long_option_map : OptionMap) (arg : Text)
    (next_arg : Option Text) :
    (Python.check_option short_option_map long_option_map [] arg next_arg).Agrees
      (Ruby.check_option short_option_map long_option_map arg next_arg) := by
  unfold Python.check_option Ruby.check_option
  rw [if_neg List.not_mem_nil]
  split
  · rename_i hdash
    split
    · rename_i hlength
      split
      · rename_i hsecond
        split
        · exact .pure _
        · exact (long_agrees long_option_map next_arg hdash.2 hsecond).bind fun _ => .pure _
      · refine .bind ?_ fun _ => .pure _
        unfold Python.handle_short_options Ruby.handle_short_options
        rw [if_neg (not_not_intro hdash.2)]
        refine short_agrees short_option_map next_arg (arg.drop 1) 0 (.inl fun hnil => ?_)
        rw [List.drop_eq_nil_iff] at hnil
        omega
    · exact .pure _
  · exact .pure _

-- How many arguments an option takes from the vector, itself included. There is no result where
-- it is an error.
def requires_argument (option : ProgramOption) : Bool :=
  option.takes_argument && !option.argument_optional

def long_count (long_option_map : OptionMap) (arg : Text) (next_arg : Option Text) : Option Nat := do
  let option ← long_option_map (some (split_long arg).1)
  if requires_argument option && (split_long arg).2.isNone then next_arg.map fun _ => 2 else some 1

def short_count (short_option_map : OptionMap) (next_arg : Option Text) : Text → Option Nat
  | [] => some 1
  | c :: rest => do
      let option ← short_option_map (some [c])
      if requires_argument option then
        if rest ≠ [] then some 1 else next_arg.map fun _ => 2
      else short_count short_option_map next_arg rest

def option_count (short_option_map long_option_map : OptionMap) (arg : Text)
    (next_arg : Option Text) : Option Nat :=
  if arg[1]? = some '-' then long_count long_option_map arg next_arg
  else short_count short_option_map next_arg (arg.drop 1)

def TERMINATOR : Text := ['-', '-']

def IsOption (arg : Text) : Prop := arg[0]? = some '-' ∧ 1 < arg.length ∧ arg ≠ TERMINATOR

-- What a list of arguments means: the ones that are no options, and what is left from the first
-- "--" on that no option takes as its argument, or from an error on.
inductive Parsed (short_option_map long_option_map : OptionMap) :
    List Text → List Text → List Text → Bool → Prop
  | done : Parsed short_option_map long_option_map [] [] [] false
  | terminator {args : List Text} : Parsed short_option_map long_option_map
      (TERMINATOR :: args) [] (TERMINATOR :: args) false
  | error {arg : Text} {args : List Text} (hoption : IsOption arg)
      (hcount : option_count short_option_map long_option_map arg args.head? = none) :
      Parsed short_option_map long_option_map (arg :: args) [] (arg :: args) true
  | operand {arg : Text} {args kept left : List Text} {raised : Bool} (hoption : ¬IsOption arg)
      (hterminator : arg ≠ TERMINATOR)
      (hrest : Parsed short_option_map long_option_map args kept left raised) :
      Parsed short_option_map long_option_map (arg :: args) (arg :: kept) left raised
  | option {arg : Text} {args kept left : List Text} {raised : Bool} (hoption : IsOption arg)
      (hcount : option_count short_option_map long_option_map arg args.head? = some 1)
      (hrest : Parsed short_option_map long_option_map args kept left raised) :
      Parsed short_option_map long_option_map (arg :: args) kept left raised
  | option_and_argument {arg value : Text} {args kept left : List Text} {raised : Bool}
      (hoption : IsOption arg)
      (hcount : option_count short_option_map long_option_map arg (some value) = some 2)
      (hrest : Parsed short_option_map long_option_map args kept left raised) :
      Parsed short_option_map long_option_map (arg :: value :: args) kept left raised

theorem short_count_cases {chars : Text} {n : Nat}
    (h : short_count short_option_map next_arg chars = some n) :
    n = 1 ∨ n = 2 ∧ next_arg.isSome := by
  induction chars with
  | nil => exact .inl (Option.some.inj h).symm
  | cons c rest ih =>
      obtain ⟨option, -, h⟩ := Option.bind_eq_some_iff.mp h
      split at h
      · split at h
        · exact .inl (Option.some.inj h).symm
        · obtain ⟨value, hvalue, rfl⟩ := Option.map_eq_some_iff.mp h
          exact .inr ⟨rfl, by rw [hvalue]; rfl⟩
      · exact ih h

theorem option_count_cases {n : Nat}
    (h : option_count short_option_map long_option_map arg next_arg = some n) :
    n = 1 ∨ n = 2 ∧ next_arg.isSome := by
  unfold option_count at h
  split at h
  · obtain ⟨option, -, h⟩ := Option.bind_eq_some_iff.mp h
    split at h
    · obtain ⟨value, hvalue, rfl⟩ := Option.map_eq_some_iff.mp h
      exact .inr ⟨rfl, by rw [hvalue]; rfl⟩
    · exact .inl (Option.some.inj h).symm
  · exact short_count_cases h

theorem value_handle_long (long_option_map : OptionMap) (arg : Text) (next_arg : Option Text)
    (missing unknown : ε) :
    (handle_long long_option_map arg next_arg missing unknown).value.toOption =
      long_count long_option_map arg next_arg := by
  unfold handle_long long_count
  cases long_option_map (some (split_long arg).1) with
  | none => rfl
  | some option =>
      cases htakes : option.takes_argument <;> cases hoptional : option.argument_optional <;>
        cases hvalue : (split_long arg).2 <;> cases next_arg <;>
        simp only [deliver_long, requires_argument, htakes, hoptional, Option.bind_eq_bind,
          Option.bind_some] <;> rfl

theorem value_received_bind {α : Type} (option : ProgramOption) (argument : Option Text)
    (next : Unit → Call Effect ε α) :
    (received option argument >>= next).value = (next ()).value := rfl

theorem value_warn_bind {α : Type} (next_arg : Option Text) (text : String)
    (next : Unit → Call Effect ε α) : (warn next_arg text >>= next).value = (next ()).value := by
  unfold warn
  split <;> rfl

theorem value_short_options (short_option_map : OptionMap) (next_arg : Option Text) (chars : Text)
    (consumed : Nat) (h : chars ≠ [] ∨ 0 < consumed) :
    (Python.short_options short_option_map next_arg chars consumed).value.toOption =
      (short_count short_option_map next_arg chars).map (max consumed) := by
  induction chars generalizing consumed with
  | nil =>
      have hpos : 0 < consumed := h.resolve_left (not_not_intro rfl)
      simp only [Python.short_options, short_count, Option.map_some, Nat.max_eq_left hpos]
      rfl
  | cons c rest ih =>
      rw [Python.short_options, short_count]
      cases short_option_map (some [c]) with
      | none => rfl
      | some option =>
          have hcount : ∀ n, (if n > consumed then n else consumed) = max consumed n := by
            intro n
            split <;> omega
          have hrest := ih (if 1 > consumed then 1 else consumed) (.inr (by split <;> omega))
          have hpos : ∀ n ∈ short_count short_option_map next_arg rest,
              max (if 1 > consumed then 1 else consumed) n = max consumed n := by
            intro n hn
            rcases short_count_cases hn with rfl | ⟨rfl, -⟩ <;> split <;> omega
          rw [Option.map_congr hpos] at hrest
          cases htakes : option.takes_argument with
          | false => simpa [requires_argument, htakes, value_received_bind] using hrest
          | true =>
              cases hoptional : option.argument_optional with
              | true =>
                  simpa [requires_argument, htakes, hoptional, value_received_bind,
                    value_warn_bind] using hrest
              | false =>
                  have hrequires : requires_argument option = true := by
                    simp [requires_argument, htakes, hoptional]
                  simp only [htakes, hoptional, if_true, if_false, Option.bind_eq_bind, Option.bind_some,
                    hrequires, Bool.false_eq_true]
                  cases rest with
                  | cons d rest =>
                      simp only [ne_eq, reduceCtorEq, not_false_eq_true, if_true,
                        value_received_bind, hcount]
                      rfl
                  | nil =>
                      cases next_arg with
                      | none => rfl
                      | some value =>
                          simp only [ne_eq, not_true_eq_false, if_false, value_received_bind,
                            Python.short_options, hcount]
                          rfl

theorem value_bind_pure {α β : Type} (call : Call Effect ε α) (f : α → β) :
    (call >>= fun a => pure (f a)).value.toOption = call.value.toOption.map f := by
  change (call.andThen fun a => pure (f a)).value.toOption = _
  unfold Call.andThen
  cases call.value <;> rfl

-- What check_option says of an argument.
theorem value_check_option (short_option_map long_option_map : OptionMap) (arg : Text)
    (next_arg : Option Text) :
    (arg = TERMINATOR ∧ (Python.check_option short_option_map long_option_map [] arg next_arg).value =
      .ok none) ∨
    (¬IsOption arg ∧ arg ≠ TERMINATOR ∧
      (Python.check_option short_option_map long_option_map [] arg next_arg).value = .ok (some 0)) ∨
    (IsOption arg ∧
      (Python.check_option short_option_map long_option_map [] arg next_arg).value.toOption =
        (option_count short_option_map long_option_map arg next_arg).map some) := by
  unfold Python.check_option
  rw [if_neg List.not_mem_nil]
  by_cases hterminator : arg = TERMINATOR
  · subst hterminator
    exact .inl ⟨rfl, rfl⟩
  refine .inr ?_
  by_cases hoption : IsOption arg
  · obtain ⟨hdash, hlength, -⟩ := hoption
    refine .inr ⟨⟨hdash, hlength, hterminator⟩, ?_⟩
    rw [if_pos ⟨by omega, hdash⟩, if_pos hlength, option_count]
    by_cases hsecond : arg[1]? = some '-'
    · have hlong : arg.length ≠ 2 := fun htwo => hterminator (by
        obtain ⟨a, b, rfl⟩ := List.length_eq_two.mp htwo
        rw [Option.some.inj hdash, Option.some.inj hsecond]
        rfl)
      obtain ⟨missing, unknown, hpython⟩ := python_long_eq long_option_map arg next_arg
      rw [if_pos hsecond, if_neg hlong, if_pos hsecond, hpython, value_bind_pure,
        value_handle_long]
    · have hchars : arg.drop 1 ≠ [] ∨ 0 < 0 := .inl fun hnil => by
        rw [List.drop_eq_nil_iff] at hnil
        omega
      rw [if_neg hsecond, if_neg hsecond, value_bind_pure, Python.handle_short_options,
        value_short_options _ _ _ _ hchars, Option.map_map]
      exact Option.map_congr fun n _ => congrArg some (Nat.zero_max n)
  · refine .inl ⟨hoption, hterminator, ?_⟩
    by_cases hdash : arg.length > 0 ∧ arg[0]? = some '-'
    · rw [if_pos hdash, if_neg fun hlength => hoption ⟨hdash.2, hlength, hterminator⟩]
      rfl
    · rw [if_neg hdash]
      rfl

theorem parsed_of_scanned {args kept left : List Text} {effects : List Effect}
    {raised : Except Python.PythonError Unit}
    (h : Scanned (Python.check_option short_option_map long_option_map []) args effects raised
      kept left) :
    Parsed short_option_map long_option_map args kept left raised.toOption.isNone := by
  induction h with
  | done => exact .done
  | @stop arg args hvalue =>
      rcases value_check_option short_option_map long_option_map arg args.head? with
        ⟨rfl, -⟩ | ⟨-, -, hcheck⟩ | ⟨-, hcheck⟩
      · exact .terminator
      · exact absurd (hcheck.symm.trans hvalue) (by simp)
      · rw [hvalue] at hcheck
        obtain ⟨n, -, hn⟩ := Option.map_eq_some_iff.mp hcheck.symm
        exact absurd hn (by simp)
  | @fail arg args e hvalue =>
      rcases value_check_option short_option_map long_option_map arg args.head? with
        ⟨-, hcheck⟩ | ⟨-, -, hcheck⟩ | ⟨hoption, hcheck⟩
      · exact absurd (hcheck.symm.trans hvalue) (by simp)
      · exact absurd (hcheck.symm.trans hvalue) (by simp)
      · rw [hvalue] at hcheck
        exact .error hoption (Option.map_eq_none_iff.mp hcheck.symm)
  | @keep arg args kept left effects raised hvalue _ ih =>
      rcases value_check_option short_option_map long_option_map arg args.head? with
        ⟨-, hcheck⟩ | ⟨hoption, hterminator, -⟩ | ⟨-, hcheck⟩
      · exact absurd (hcheck.symm.trans hvalue) (by simp)
      · exact .operand hoption hterminator ih
      · rw [hvalue] at hcheck
        obtain ⟨n, hcount, hn⟩ := Option.map_eq_some_iff.mp hcheck.symm
        have hcases := option_count_cases hcount
        have hzero : n = 0 := Option.some.inj hn
        omega
  | @delete arg args kept left effects raised n hvalue _ ih =>
      rcases value_check_option short_option_map long_option_map arg args.head? with
        ⟨-, hcheck⟩ | ⟨-, -, hcheck⟩ | ⟨hoption, hcheck⟩
      · exact absurd (hcheck.symm.trans hvalue) (by simp)
      · exact absurd (hcheck.symm.trans hvalue) (by simp)
      · rw [hvalue] at hcheck
        obtain ⟨count, hcount, hn⟩ := Option.map_eq_some_iff.mp hcheck.symm
        obtain rfl : count = n + 1 := Option.some.inj hn
        obtain hone | ⟨htwo, hnext⟩ := option_count_cases hcount
        · obtain rfl : n = 0 := by omega
          exact .option hoption hcount ih
        · obtain rfl : n = 1 := by omega
          cases args with
          | nil => simp at hnext
          | cons value args => exact .option_and_argument hoption hcount ih

theorem parsers_agree (option_list : List ProgramOption) (arguments : List Text) :
    ∃ python ruby kept left,
      Python.handle_options (arguments.length + 1) option_list arguments [] = some python ∧
      Ruby.handle_options (arguments.length + 1) option_list arguments = some ruby ∧
      python.Agrees ruby ∧ python.arguments = kept ++ left ∧ python.index = kept.length ∧
      Parsed (option_map ProgramOption.short_name option_list)
        (option_map ProgramOption.long_name option_list) arguments kept left
        python.raised.toOption.isNone := by
  obtain ⟨effects, raised, kept, left, hscanned, hloop⟩ := exists_scanned
    (Python.check_option (option_map ProgramOption.short_name option_list)
      (option_map ProgramOption.long_name option_list) []) (Nat.lt_succ_self arguments.length) []
  have hagrees := loop_agrees (check_agrees (option_map ProgramOption.short_name option_list)
    (option_map ProgramOption.long_name option_list)) (arguments.length + 1) arguments 0
  rw [List.nil_append, List.nil_append, List.length_nil, Nat.zero_add] at hloop
  rw [hloop] at hagrees
  obtain ⟨ruby, hruby, hagrees⟩ : ∃ ruby, Ruby.handle_options (arguments.length + 1) option_list
      arguments = some ruby ∧ Outcome.Agrees ⟨effects, raised, kept ++ left, kept.length⟩ ruby := by
    unfold Ruby.handle_options
    generalize loop (Ruby.check_option _ _) _ _ _ = run at hagrees ⊢
    cases hagrees with
    | some hagrees => exact ⟨_, rfl, hagrees⟩
  exact ⟨_, ruby, kept, left, hloop, hruby, hagrees, rfl, rfl, parsed_of_scanned hscanned⟩

-- --file takes "--" as its argument.
def file : ProgramOption where
  short_name := none
  long_name := some ['f', 'i', 'l', 'e']
  argument_description := some ['F', 'I', 'L', 'E']
  argument_optional := false
  handler := 0
  named := .inr rfl

theorem terminator_as_argument :
    ¬∀ (option_list : List ProgramOption) (arguments : List Text)
        (outcome : Outcome Effect Python.PythonError Text),
      Python.handle_options (arguments.length + 1) option_list arguments [] = some outcome →
        outcome.raised = .ok () →
          ∃ kept, outcome.arguments = kept ++ arguments.dropWhile (· ≠ TERMINATOR) := by
  intro h
  let arguments : List Text := [['-', '-', 'f', 'i', 'l', 'e'], TERMINATOR, ['x']]
  obtain ⟨kept, hkept⟩ := h [file] arguments _ rfl rfl
  have hlength := congrArg List.length hkept
  rw [List.length_append] at hlength
  have htwo : (arguments.dropWhile (· ≠ TERMINATOR)).length = 2 := by decide
  rw [htwo] at hlength
  change 1 = kept.length + 2 at hlength
  omega

end RoboCrisp.Tools
