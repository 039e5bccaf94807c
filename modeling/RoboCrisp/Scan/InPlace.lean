import Mathlib.Data.Option.Basic
import Mathlib.Data.List.Basic

namespace RoboCrisp.Scan

-- What a call does on the way, and how it ends.
structure Call (ω ε α : Type) where
  effects : List ω
  value : Except ε α

namespace Call

variable {ω ε ε' α β : Type}

def raise (e : ε) : Call ω ε α := ⟨[], .error e⟩

def effect (o : ω) : Call ω ε Unit := ⟨[o], .ok ()⟩

def andThen (call : Call ω ε α) (next : α → Call ω ε β) : Call ω ε β :=
  match call.value with
  | .ok a => ⟨call.effects ++ (next a).effects, (next a).value⟩
  | .error e => ⟨call.effects, .error e⟩

instance : Monad (Call ω ε) where
  pure a := ⟨[], .ok a⟩
  bind := andThen

-- The same effects and the same value, or an error in both.
structure Agrees (call : Call ω ε α) (call' : Call ω ε' α) : Prop where
  effects : call'.effects = call.effects
  value : call'.value.toOption = call.value.toOption

theorem Agrees.pure (a : α) : Agrees (pure a : Call ω ε α) (pure a : Call ω ε' α) := ⟨rfl, rfl⟩

theorem Agrees.raise (e : ε) (e' : ε') :
    Agrees (raise e : Call ω ε α) (raise e' : Call ω ε' α) := ⟨rfl, rfl⟩

theorem Agrees.effect (o : ω) : Agrees (effect o : Call ω ε Unit) (effect o : Call ω ε' Unit) :=
  ⟨rfl, rfl⟩

theorem Agrees.bind {call : Call ω ε α} {call' : Call ω ε' α} {next : α → Call ω ε β}
    {next' : α → Call ω ε' β} (h : Agrees call call') (hnext : ∀ a, Agrees (next a) (next' a)) :
    Agrees (call >>= next) (call' >>= next') := by
  obtain ⟨heffects, hvalue⟩ := h
  change Agrees (call.andThen next) (call'.andThen next')
  unfold andThen
  cases hcall : call.value with
  | ok a =>
      cases hcall' : call'.value with
      | ok a' =>
          rw [hcall, hcall'] at hvalue
          obtain rfl := Option.some.inj hvalue
          exact ⟨by simp only [heffects, (hnext a').effects], (hnext a').value⟩
      | error e' =>
          rw [hcall, hcall'] at hvalue
          contradiction
  | error e =>
      cases hcall' : call'.value with
      | ok a' =>
          rw [hcall, hcall'] at hvalue
          contradiction
      | error e' => exact ⟨heffects, rfl⟩

end Call

variable {α ω ε ε' : Type} {check : α → Option α → Call ω ε (Option Nat)}
  {check' : α → Option α → Call ω ε' (Option Nat)}

-- The element at one index is deleted `n` times.
def deleteEach (i : Nat) : Nat → List α → List α
  | 0, args => args
  | n + 1, args => deleteEach i n (args.eraseIdx i)

-- What a scan did, whether it raised an error, and the vector and the index that it leaves.
structure Outcome (ω ε α : Type) where
  effects : List ω
  raised : Except ε Unit
  arguments : List α
  index : Nat

def Outcome.after (effects : List ω) (outcome : Outcome ω ε α) : Outcome ω ε α :=
  { outcome with effects := effects ++ outcome.effects }

-- A loop that looks at each element and at the one after it. `check` says that it's over (`none`),
-- or how many elements are to be deleted from the vector; with none of them, the next one follows.
def loop (check : α → Option α → Call ω ε (Option Nat)) :
    Nat → List α → Nat → Option (Outcome ω ε α)
  | 0, _, _ => none
  | fuel + 1, args, i =>
      match args[i]? with
      | none => some ⟨[], .ok (), args, i⟩
      | some arg =>
          let call := check arg args[i + 1]?
          match call.value with
          | .error e => some ⟨call.effects, .error e, args, i⟩
          | .ok none => some ⟨call.effects, .ok (), args, i⟩
          | .ok (some 0) => (loop check fuel args (i + 1)).map (Outcome.after call.effects)
          | .ok (some (n + 1)) =>
              (loop check fuel (deleteEach i (n + 1) args) i).map (Outcome.after call.effects)

-- The same from front to back: what is kept, and what is left when the scan is over.
inductive Scanned (check : α → Option α → Call ω ε (Option Nat)) :
    List α → List ω → Except ε Unit → List α → List α → Prop
  | done : Scanned check [] [] (.ok ()) [] []
  | stop {arg : α} {args : List α} (hvalue : (check arg args.head?).value = .ok none) :
      Scanned check (arg :: args) (check arg args.head?).effects (.ok ()) [] (arg :: args)
  | fail {arg : α} {args : List α} {e : ε} (hvalue : (check arg args.head?).value = .error e) :
      Scanned check (arg :: args) (check arg args.head?).effects (.error e) [] (arg :: args)
  | keep {arg : α} {args kept left : List α} {effects : List ω} {raised : Except ε Unit}
      (hvalue : (check arg args.head?).value = .ok (some 0))
      (hrest : Scanned check args effects raised kept left) :
      Scanned check (arg :: args) ((check arg args.head?).effects ++ effects) raised (arg :: kept) left
  | delete {arg : α} {args kept left : List α} {effects : List ω} {raised : Except ε Unit} {n : Nat}
      (hvalue : (check arg args.head?).value = .ok (some (n + 1)))
      (hrest : Scanned check (args.drop n) effects raised kept left) :
      Scanned check (arg :: args) ((check arg args.head?).effects ++ effects) raised kept left

theorem deleteEach_append (front : List α) (n : Nat) (args : List α) :
    deleteEach front.length n (front ++ args) = front ++ args.drop n := by
  induction n generalizing args with
  | zero => rfl
  | succ n ih =>
      rw [deleteEach, List.eraseIdx_append_of_length_le (Nat.le_refl _), Nat.sub_self, ih]
      cases args with
      | nil => simp
      | cons arg args => rfl

-- The loop comes to an end, and does what the scan from front to back does.
theorem exists_scanned (check : α → Option α → Call ω ε (Option Nat)) {fuel : Nat}
    {args : List α} (hfuel : args.length < fuel) (front : List α) :
    ∃ effects raised kept left, Scanned check args effects raised kept left ∧
      loop check fuel (front ++ args) front.length =
        some ⟨effects, raised, front ++ (kept ++ left), front.length + kept.length⟩ := by
  induction fuel generalizing args front with
  | zero => exact absurd hfuel (Nat.not_lt_zero _)
  | succ fuel ih =>
      cases args with
      | nil => exact ⟨[], .ok (), [], [], .done, by simp [loop]⟩
      | cons arg args =>
          have hget : (front ++ arg :: args)[front.length]? = some arg := by simp
          have hnext : (front ++ arg :: args)[front.length + 1]? = args.head? := by
            rw [List.getElem?_append_right (by omega), Nat.add_sub_cancel_left,
              List.getElem?_cons_succ, List.head?_eq_getElem?]
          have hlength : args.length < fuel := by simpa using hfuel
          rw [loop, hget]
          simp only [hnext]
          cases hvalue : (check arg args.head?).value with
          | error e => exact ⟨_, _, _, _, .fail hvalue, by simp⟩
          | ok count =>
              match count with
              | none => exact ⟨_, _, _, _, .stop hvalue, by simp⟩
              | some 0 =>
                  obtain ⟨effects, raised, kept, left, hscanned, hloop⟩ := ih hlength (front ++ [arg])
                  rw [List.append_assoc, List.singleton_append, List.length_append,
                    List.length_singleton] at hloop
                  refine ⟨_, _, _, _, .keep hvalue hscanned, ?_⟩
                  have hindex : front.length + 1 + kept.length = front.length + (arg :: kept).length := by
                    rw [List.length_cons]
                    omega
                  simp only [hloop, Option.map_some, Outcome.after, hindex, List.append_assoc,
                    List.cons_append, List.nil_append]
              | some (n + 1) =>
                  have hdrop : (args.drop n).length < fuel := by
                    rw [List.length_drop]
                    omega
                  obtain ⟨effects, raised, kept, left, hscanned, hloop⟩ := ih hdrop front
                  refine ⟨_, _, _, _, .delete hvalue hscanned, ?_⟩
                  simp only [deleteEach_append, List.drop_succ_cons, hloop, Option.map_some,
                    Outcome.after]

-- The same effects, and the same vector and index, also where both have raised an error.
structure Outcome.Agrees (outcome : Outcome ω ε α) (outcome' : Outcome ω ε' α) : Prop where
  effects : outcome'.effects = outcome.effects
  raised : outcome'.raised.toOption = outcome.raised.toOption
  arguments : outcome'.arguments = outcome.arguments
  index : outcome'.index = outcome.index

theorem rel_after {run : Option (Outcome ω ε α)} {run' : Option (Outcome ω ε' α)}
    (h : Option.Rel Outcome.Agrees run run') (effects : List ω) :
    Option.Rel Outcome.Agrees (run.map (Outcome.after effects)) (run'.map (Outcome.after effects)) := by
  cases h with
  | some h => exact .some ⟨congrArg (effects ++ ·) h.effects, h.raised, h.arguments, h.index⟩
  | none => exact .none

theorem loop_agrees (hcheck : ∀ arg next, (check arg next).Agrees (check' arg next)) (fuel : Nat)
    (args : List α) (i : Nat) :
    Option.Rel Outcome.Agrees (loop check fuel args i) (loop check' fuel args i) := by
  induction fuel generalizing args i with
  | zero => exact .none
  | succ fuel ih =>
      rw [loop, loop]
      cases args[i]? with
      | none => exact .some ⟨rfl, rfl, rfl, rfl⟩
      | some arg =>
          obtain ⟨heffects, hvalue⟩ := hcheck arg args[i + 1]?
          simp only [heffects]
          cases hcall : (check arg args[i + 1]?).value with
          | error e =>
              cases hcall' : (check' arg args[i + 1]?).value with
              | error e' => exact .some ⟨rfl, rfl, rfl, rfl⟩
              | ok count =>
                  rw [hcall, hcall'] at hvalue
                  contradiction
          | ok count =>
              cases hcall' : (check' arg args[i + 1]?).value with
              | error e' =>
                  rw [hcall, hcall'] at hvalue
                  contradiction
              | ok count' =>
                  rw [hcall, hcall'] at hvalue
                  obtain rfl := Option.some.inj hvalue
                  match count' with
                  | none => exact .some ⟨rfl, rfl, rfl, rfl⟩
                  | some 0 => exact rel_after (ih args (i + 1)) _
                  | some (n + 1) => exact rel_after (ih (deleteEach i (n + 1) args) i) _

end RoboCrisp.Scan
