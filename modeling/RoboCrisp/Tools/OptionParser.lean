import RoboCrisp.Scan.InPlace

namespace RoboCrisp.Tools

open RoboCrisp.Scan

abbrev Text := List Char

-- Option, as far as the parsers look at one. The handler only records what it is called with.
structure ProgramOption where
  short_name : Option Text
  long_name : Option Text
  argument_description : Option Text
  argument_optional : Bool
  handler : Nat
  -- the constructors refuse an option without a name
  named : short_name.isSome ∨ long_name.isSome

namespace ProgramOption

def takes_argument (option : ProgramOption) : Bool := option.argument_description.isSome

end ProgramOption

-- A call of an option's handler, where no argument is `True` in Python and nil in Ruby, or a
-- line on stderr.
inductive Effect
  | received (option : ProgramOption) (argument : Option Text)
  | warning (text : String)

-- A dict, in which an option without the name is stored under None.
abbrev OptionMap := Option Text → Option ProgramOption

-- A later option takes the place of an earlier one.
def option_map (name : ProgramOption → Option Text) (option_list : List ProgramOption) : OptionMap :=
  option_list.foldl (fun map o key => if key = name o then some o else map key) fun _ => none

def LONG_WARNING : String :=
  "Warning: Please use `--long-option=value' syntax for optional arguments.\n"

def SHORT_WARNING : String :=
  "Warning: Please use `--long-option=VALUE' syntax when specifying optional arguments.\n"

section Effects

variable {ε : Type}

def received (option : ProgramOption) (argument : Option Text) : Call Effect ε Unit :=
  .effect (.received option argument)

def warn (next_arg : Option Text) (text : String) : Call Effect ε Unit :=
  if next_arg.isSome then .effect (.warning text) else pure ()

end Effects

namespace Python

inductive PythonError
  | ValueError (text : String)
  | RuntimeError (text : String)

-- s.find(c)
def find (s : Text) (c : Char) : Int :=
  match s.idxOf? c with
  | some i => i
  | none => -1

def handle_long_option (long_option_map : OptionMap) (arg : Text) (next_arg : Option Text) :
    Call Effect PythonError Nat :=
  let equals_index := find arg '='
  let option_name := if equals_index = -1 then arg.drop 2 else (arg.take equals_index.toNat).drop 2
  match long_option_map (some option_name) with
  | some option =>
      if option.takes_argument then
        if option.argument_optional then
          if equals_index = -1 then do
            warn next_arg LONG_WARNING
            received option none
            return 1
          else do
            received option (some (arg.drop (equals_index + 1).toNat))
            return 1
        else
          if equals_index = -1 then
            match next_arg with
            | none => .raise (.ValueError
                ("Missing required argument to `--" ++ String.ofList option_name ++ "'!"))
            | some value => do
                received option (some value)
                return 2
          else do
            received option (some (arg.drop (equals_index + 1).toNat))
            return 1
      else do
        received option none
        return 1
  | none => .raise (.ValueError ("No such option, `--" ++ String.ofList option_name ++ "'!"))

-- The loop over the characters behind the dash. The index is where the list begins.
def short_options (short_option_map : OptionMap) (next_arg : Option Text) :
    Text → Nat → Call Effect PythonError Nat
  | [], consumed => return consumed
  | c :: rest, consumed =>
      match short_option_map (some [c]) with
      | some option =>
          if option.takes_argument then
            if option.argument_optional then do
              warn next_arg SHORT_WARNING
              received option none
              short_options short_option_map next_arg rest (if 1 > consumed then 1 else consumed)
            else if rest ≠ [] then do
              received option (some rest)
              -- i = len(arg)
              return if 1 > consumed then 1 else consumed
            else
              match next_arg with
              | none => .raise (.ValueError
                  ("Missing required argument to `-" ++ String.ofList [c] ++ "'!"))
              | some value => do
                  received option (some value)
                  short_options short_option_map next_arg rest (if 2 > consumed then 2 else consumed)
          else do
            received option none
            short_options short_option_map next_arg rest (if 1 > consumed then 1 else consumed)
      | none => .raise (.RuntimeError ("No such option, `-" ++ String.ofList [c] ++ "'!"))

def handle_short_options (short_option_map : OptionMap) (arg : Text) (next_arg : Option Text) :
    Call Effect PythonError Nat :=
  short_options short_option_map next_arg (arg.drop 1) 0

-- `none` is False.
def check_option (short_option_map long_option_map : OptionMap) (stop_args : List Text)
    (arg : Text) (next_arg : Option Text) : Call Effect PythonError (Option Nat) :=
  if arg ∈ stop_args then return none
  else if arg.length > 0 ∧ arg[0]? = some '-' then
    if arg.length > 1 then
      if arg[1]? = some '-' then
        if arg.length = 2 then return none
        else do
          let n ← handle_long_option long_option_map arg next_arg
          return some n
      else do
        let n ← handle_short_options short_option_map arg next_arg
        return some n
    else return some 0
  else return some 0

def handle_options (fuel : Nat) (option_list : List ProgramOption) (arguments stop_args : List Text) :
    Option (Outcome Effect PythonError Text) :=
  let short_option_map := option_map ProgramOption.short_name option_list
  let long_option_map := option_map ProgramOption.long_name option_list
  loop (check_option short_option_map long_option_map stop_args) fuel arguments 0

end Python

namespace Ruby

structure RuntimeError where
  text : String

-- s[first..last], where a negative `last` counts from the end.
def range (s : Text) (first : Nat) (last : Int) : Option Text :=
  if first ≤ s.length then
    some ((s.take ((if last < 0 then s.length + last else last) + 1).toNat).drop first)
  else none

def handle_long_option (long_option_map : OptionMap) (arg : Text) (next_arg : Option Text) :
    Call Effect RuntimeError Nat :=
  if arg[0]? ≠ some '-' ∨ arg[1]? ≠ some '-' then return 0
  else
    -- 0 stands for no '=' at all
    let equalsIndex := (arg.idxOf? '=').getD 0
    let optionName := range arg 2 (equalsIndex - 1)
    match long_option_map optionName with
    | none => .raise ⟨"No such option, `--%s'!"⟩
    | some option =>
        if option.takes_argument then
          if option.argument_optional then
            if equalsIndex = 0 then do
              warn next_arg LONG_WARNING
              received option none
              return 1
            else do
              received option (range arg (equalsIndex + 1) (-1))
              return 1
          else
            if equalsIndex = 0 then
              match next_arg with
              | none => .raise ⟨"Missing required argument to `--" ++
                  String.ofList (optionName.getD []) ++ "'!"⟩
              | some value => do
                  received option (some value)
                  return 2
            else do
              received option (range arg (equalsIndex + 1) (-1))
              return 1
        else do
          received option none
          return 1

def short_options (short_option_map : OptionMap) (next_arg : Option Text) :
    Text → Nat → Call Effect RuntimeError Nat
  | [], consumed => return consumed
  | c :: rest, consumed =>
      match short_option_map (some [c]) with
      | none => .raise ⟨"No such option, `-" ++ String.ofList [c] ++ "'!"⟩
      | some option =>
          if option.takes_argument then
            if option.argument_optional then do
              warn next_arg SHORT_WARNING
              received option none
              short_options short_option_map next_arg rest (max 1 consumed)
            else if rest ≠ [] then do
              received option (some rest)
              -- i = arg.length
              return max 1 consumed
            else
              match next_arg with
              | none => .raise ⟨"Missing required argument to `-" ++ String.ofList [c] ++ "'!"⟩
              | some value => do
                  received option (some value)
                  -- i = arg.length
                  return max 2 consumed
          else do
            received option none
            short_options short_option_map next_arg rest (max 1 consumed)

def handle_short_options (short_option_map : OptionMap) (arg : Text) (next_arg : Option Text) :
    Call Effect RuntimeError Nat :=
  if arg[0]? ≠ some '-' then return 0
  else short_options short_option_map next_arg (arg.drop 1) 1

def check_option (short_option_map long_option_map : OptionMap) (arg : Text)
    (next_arg : Option Text) : Call Effect RuntimeError (Option Nat) :=
  if arg.length > 0 ∧ arg[0]? = some '-' then
    if arg.length > 1 then
      if arg[1]? = some '-' then
        if arg.length = 2 then return none
        else do
          let n ← handle_long_option long_option_map arg next_arg
          return some n
      else do
        let n ← handle_short_options short_option_map arg next_arg
        return some n
    else return some 0
  else return some 0

def handle_options (fuel : Nat) (option_list : List ProgramOption) (arguments : List Text) :
    Option (Outcome Effect RuntimeError Text) :=
  let short_option_map := option_map ProgramOption.short_name option_list
  let long_option_map := option_map ProgramOption.long_name option_list
  loop (check_option short_option_map long_option_map) fuel arguments 0

end Ruby

end RoboCrisp.Tools
