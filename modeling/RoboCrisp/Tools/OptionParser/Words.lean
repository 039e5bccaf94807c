import RoboCrisp.Scan.Rescan
import RoboCrisp.Tools.OptionParser.Agreement

namespace RoboCrisp.Tools

open RoboCrisp.Scan

variable {short_option_map long_option_map : OptionMap} {arg name value : Text}
  {option : ProgramOption}

-- What both parsers pass over.
def Operand (arg : Text) : Prop := ¬IsOption arg ∧ arg ≠ TERMINATOR

def flag (name : Text) : Text := '-' :: '-' :: name

def assignment (name value : Text) : Text := '-' :: '-' :: (name ++ '=' :: value)

theorem split_long_flag (h : '=' ∉ name) : split_long (flag name) = (name, none) := by
  have hindex : (flag name).idxOf? '=' = none := by
    rw [List.idxOf?_eq_none_iff]
    simpa [flag] using h
  rw [split_long, hindex]
  rfl

theorem split_long_assignment (h : '=' ∉ name) :
    split_long (assignment name value) = (name, some value) := by
  have hindex : (assignment name value).idxOf? '=' = some (name.length + 2) := by
    have hsplit : assignment name value = flag name ++ '=' :: value := rfl
    have hmem : '=' ∉ flag name := by simpa [flag] using h
    rw [hsplit, List.idxOf?, List.findIdx?_append, List.findIdx?_eq_none_iff.mpr]
    · simp [flag, List.findIdx?_cons]
    · intro c hc
      exact beq_eq_false_iff_ne.mpr fun heq => hmem (heq ▸ hc)
  rw [split_long, hindex]
  simp [assignment]

namespace Python

theorem passes_operand (h : Operand arg) :
    Passes (check_option short_option_map long_option_map []) arg := by
  intro next
  unfold check_option
  rw [if_neg List.not_mem_nil]
  by_cases hdash : arg.length > 0 ∧ arg[0]? = some '-'
  · rw [if_pos hdash, if_neg fun hlength => h.1 ⟨hdash.2, hlength, h.2⟩]
    rfl
  · rw [if_neg hdash]
    rfl

theorem stops_terminator :
    Stops (check_option short_option_map long_option_map []) TERMINATOR := fun _ => rfl

theorem operand_of_value {next : Option Text}
    (hvalue : (check_option short_option_map long_option_map [] arg next).value = .ok (some 0)) :
    Operand arg := by
  rcases value_check_option short_option_map long_option_map arg next with
    ⟨-, hcheck⟩ | ⟨hoption, hterminator, -⟩ | ⟨-, hcheck⟩
  · exact absurd (hcheck.symm.trans hvalue) (by simp)
  · exact ⟨hoption, hterminator⟩
  · rw [hvalue] at hcheck
    obtain ⟨n, hcount, hn⟩ := Option.map_eq_some_iff.mp hcheck.symm
    have hcases := option_count_cases hcount
    have hzero : n = 0 := Option.some.inj hn
    omega

theorem eq_terminator_of_value {next : Option Text}
    (hvalue : (check_option short_option_map long_option_map [] arg next).value = .ok none) :
    arg = TERMINATOR := by
  rcases value_check_option short_option_map long_option_map arg next with
    ⟨hterminator, -⟩ | ⟨-, -, hcheck⟩ | ⟨-, hcheck⟩
  · exact hterminator
  · exact absurd (hcheck.symm.trans hvalue) (by simp)
  · rw [hvalue] at hcheck
    obtain ⟨n, -, hn⟩ := Option.map_eq_some_iff.mp hcheck.symm
    exact absurd hn (by simp)

theorem local_check_option : Local (check_option short_option_map long_option_map []) where
  passes _ _ hvalue := passes_operand (operand_of_value hvalue)
  stops _ _ hvalue := eq_terminator_of_value hvalue ▸ stops_terminator

theorem operand_of_passes (h : Passes (check_option short_option_map long_option_map []) arg) :
    Operand arg :=
  operand_of_value (congrArg Call.value (h none))

theorem eq_terminator_of_stops (h : Stops (check_option short_option_map long_option_map []) arg) :
    arg = TERMINATOR :=
  eq_terminator_of_value (congrArg Call.value (h none))

theorem takes_flag (hne : name ≠ []) (heq : '=' ∉ name)
    (hoption : long_option_map (some name) = some option)
    (htakes : option.takes_argument = false) :
    Takes (check_option short_option_map long_option_map []) [.received option none] (flag name) := by
  intro next
  obtain ⟨missing, unknown, hpython⟩ := python_long_eq long_option_map (flag name) next
  have hsecond : (flag name)[1]? = some '-' := rfl
  have hlength : (flag name).length ≠ 2 := by simpa [flag] using hne
  unfold check_option
  rw [if_neg List.not_mem_nil, if_pos ⟨by simp [flag], rfl⟩, if_pos (by simp [flag]),
    if_pos hsecond, if_neg hlength, hpython, handle_long, split_long_flag heq, hoption]
  simp only [deliver_long, htakes]
  rfl

theorem takes_assignment (heq : '=' ∉ name) (hoption : long_option_map (some name) = some option)
    (htakes : option.takes_argument = true) :
    Takes (check_option short_option_map long_option_map []) [.received option (some value)]
      (assignment name value) := by
  intro next
  obtain ⟨missing, unknown, hpython⟩ := python_long_eq long_option_map (assignment name value) next
  have hsecond : (assignment name value)[1]? = some '-' := rfl
  unfold check_option
  rw [if_neg List.not_mem_nil, if_pos ⟨by simp [assignment], rfl⟩, if_pos (by simp [assignment]),
    if_pos hsecond, if_neg (by simp [assignment]), hpython, handle_long, split_long_assignment heq, hoption]
  simp only [deliver_long, htakes]
  rfl

end Python

-- The words of a command line, as a parser with these options reads them.
structure Reads {ε : Type} (check : Text → Option Text → Call Effect ε (Option Nat))
    (long_option_map : OptionMap) : Prop where
  passes_iff : ∀ arg, Passes check arg ↔ Operand arg
  stops_iff : ∀ arg, Stops check arg ↔ arg = TERMINATOR
  local_check : Local check
  takes_flag : ∀ name option, name ≠ [] → '=' ∉ name → long_option_map (some name) = some option →
    option.takes_argument = false → Takes check [.received option none] (flag name)
  takes_assignment : ∀ name option value, '=' ∉ name → long_option_map (some name) = some option →
    option.takes_argument = true → Takes check [.received option (some value)] (assignment name value)

theorem Reads.operands {ε : Type} {check : Text → Option Text → Call Effect ε (Option Nat)}
    (hreads : Reads check long_option_map) {argv kept left : List Text} {effects : List Effect}
    (h : Scanned check argv effects (.ok ()) kept left) :
    (∀ arg ∈ kept, Operand arg) ∧ (left = [] ∨ ∃ rest, left = TERMINATOR :: rest) := by
  refine ⟨fun arg hmem => (hreads.passes_iff arg).mp (h.passes_kept hreads.local_check arg hmem), ?_⟩
  cases h.ends_left hreads.local_check with
  | done => exact .inl rfl
  | @stop arg args hstops =>
      obtain rfl := (hreads.stops_iff arg).mp hstops
      exact .inr ⟨args, rfl⟩

theorem Python.reads (short_option_map long_option_map : OptionMap) :
    Reads (Python.check_option short_option_map long_option_map []) long_option_map where
  passes_iff _ := ⟨Python.operand_of_passes, Python.passes_operand⟩
  stops_iff _ := ⟨Python.eq_terminator_of_stops, fun h => h ▸ Python.stops_terminator⟩
  local_check := Python.local_check_option
  takes_flag _ _ hne heq hoption htakes := Python.takes_flag hne heq hoption htakes
  takes_assignment _ _ _ heq hoption htakes := Python.takes_assignment heq hoption htakes

theorem Ruby.reads (short_option_map long_option_map : OptionMap) :
    Reads (Ruby.check_option short_option_map long_option_map) long_option_map where
  passes_iff arg :=
    ⟨fun h => ((Python.reads _ _).passes_iff arg).mp (h.agrees fun arg next => (check_agrees _ _ arg next).symm),
      fun h => (((Python.reads _ _).passes_iff arg).mpr h).agrees (check_agrees _ _)⟩
  stops_iff arg :=
    ⟨fun h => ((Python.reads _ _).stops_iff arg).mp (h.agrees fun arg next => (check_agrees _ _ arg next).symm),
      fun h => (((Python.reads _ _).stops_iff arg).mpr h).agrees (check_agrees _ _)⟩
  local_check := Python.local_check_option.agrees (check_agrees _ _)
  takes_flag name option hne heq hoption htakes :=
    ((Python.reads _ _).takes_flag name option hne heq hoption htakes).agrees (check_agrees _ _)
  takes_assignment name option value heq hoption htakes :=
    ((Python.reads _ _).takes_assignment name option value heq hoption htakes).agrees (check_agrees _ _)

end RoboCrisp.Tools
