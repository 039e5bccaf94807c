import RoboCrisp.Comms.NodeServer

namespace RoboCrisp.Comms

open RoboCrisp.Transition

namespace NodeServer

variable {s s' t : NodeServer} {trace : List ServerEvent} {n k cum : Nat}

def Limited (n : Nat) (s : NodeServer) : Prop := s.nodes.length ≤ n

instance : Decidable (s.Limited n) := inferInstanceAs (Decidable (_ ≤ _))

-- The test that lets server_main() go on finds a free connection.
def TestsBelow (n : Nat) (s : NodeServer) : ServerEvent → Prop
  | .server_main => s.Admits → s.nodes.length < n
  | _ => True

instance (s : NodeServer) : Decidable s.Admits := inferInstanceAs (Decidable ((_ ∧ _ ∧ _) ∨ (_ ∧ _)))

instance (s : NodeServer) : (e : ServerEvent) → Decidable (s.TestsBelow n e)
  | .server_main => inferInstanceAs (Decidable (s.Admits → s.nodes.length < n))
  | .accept _ | .accept_failed | .disconnect _ | .handler _ | .halt | .halt_begin | .halt_node _
  | .halt_delete | .halt_end => .isTrue trivial

-- A client is accepted on a free connection, and not only tested for one.
def AcceptsBelow (n : Nat) (s : NodeServer) : ServerEvent → Prop
  | .accept _ => s.nodes.length < n
  | _ => True

theorem halt_frame (s : NodeServer) :
    s.halt.nodes = s.nodes ∧ s.halt.server_main = s.server_main ∧
      s.halt.max_simultaneous_connections = s.max_simultaneous_connections := by
  rw [halt]
  split <;> exact ⟨rfl, rfl, rfl⟩

-- The set only grows where a client is accepted.
theorem Steps.grows {e : ServerEvent} (h : s.Steps e s') : s'.nodes.length ≤ s.nodes.length ∨
    ((∃ seen, e = .accept seen) ∧ s.server_main = .accept ∧
      s'.nodes.length = s.nodes.length + 1) := by
  cases h with
  | accept haccept => exact .inr ⟨⟨_, rfl⟩, haccept, List.length_append⟩
  | handler => exact .inl List.length_erase_le
  | halt => exact .inl (Nat.le_of_eq (congrArg _ s.halt_frame.1))
  | exit => exact .inl (Nat.le_of_eq (congrArg _ s.halt_frame.1))
  | _ => exact .inl (Nat.le_refl _)

-- Where server_main() waits for a client, it was already waiting or has just been let through.
theorem Steps.accept_of {e : ServerEvent} (h : s.Steps e s') (haccept : s'.server_main = .accept) :
    s'.nodes.length ≤ s.nodes.length ∧
      (s.server_main = .accept ∨ (e = .server_main ∧ s.Admits)) := by
  cases h with
  | server_main _ _ hadmits => exact ⟨Nat.le_refl _, .inr ⟨rfl, hadmits haccept⟩⟩
  | exit | accept | accept_failed => exact absurd haccept nofun
  | halt => exact ⟨Nat.le_of_eq (congrArg _ s.halt_frame.1), .inl (s.halt_frame.2.1 ▸ haccept)⟩
  | handler => exact ⟨List.length_erase_le, .inl haccept⟩
  | _ => exact ⟨Nat.le_refl _, .inl haccept⟩

-- With a free connection where the server waits for a client, there is one for that client.
structure Below (n : Nat) (s : NodeServer) : Prop where
  limited : s.Limited n
  waiting : s.server_main = .accept → s.nodes.length < n

theorem Below.steps {e : ServerEvent} (h : s.Below n) (htests : s.TestsBelow n e)
    (hstep : s.Steps e s') : s'.Below n := by
  constructor
  · rcases hstep.grows with hle | ⟨-, haccept, hnodes⟩
    · exact Nat.le_trans hle h.limited
    · rw [Limited, hnodes]
      exact h.waiting haccept
  · intro haccept
    obtain ⟨hle, hbefore | ⟨rfl, hadmits⟩⟩ := hstep.accept_of haccept
    · exact Nat.lt_of_le_of_lt hle (h.waiting hbefore)
    · exact Nat.lt_of_le_of_lt hle (htests hadmits)

-- What the constructor leaves, and what remains of that once the field has been set.
def Starts (n : Nat) (s : NodeServer) : Prop :=
  ∃ k cum, s = make n cum ∨ s = { make k cum with max_simultaneous_connections := n }

theorem Starts.below (h : s.Starts k) : s.Below n := by
  obtain ⟨_, _, rfl | rfl⟩ := h <;> exact ⟨Nat.zero_le _, nofun⟩

theorem AcceptsBelow.grows {e : ServerEvent} (h : s.AcceptsBelow n e) (hlimited : s.Limited n)
    (hstep : s.Steps e s') : s'.Limited n := by
  rcases hstep.grows with hle | ⟨⟨seen, rfl⟩, -, hnodes⟩
  · exact Nat.le_trans hle hlimited
  · rw [Limited, hnodes]
    exact h

theorem not_limited_of_accept {e : ServerEvent} (h : ¬s.AcceptsBelow n e) (hstep : s.Steps e s') :
    ¬s'.Limited n := by
  cases hstep with
  | accept =>
      rw [Limited, List.length_append]
      exact h
  | _ => exact absurd trivial h

-- The limit holds throughout a run in which server_main() is never let through with all of the
-- n connections taken, and exactly in those in which it accepts no client then.
theorem limited_throughout (hstart : s.Starts n) (hrun : Run step Always s trace t) :
    (Run step (TestsBelow n) s trace t → Throughout (Limited n) step s trace) ∧
      (Throughout (Limited n) step s trace ↔ Run step (AcceptsBelow n) s trace t) := by
  constructor
  · intro htests
    exact htests.throughout hstart.below Below.limited
      fun hinv htest hstep => hinv.steps htest (step_steps hstep)
  · exact hrun.throughout_iff hstart.below.limited id
      (fun hlimited hallowed hstep => hallowed.grows hlimited (step_steps hstep))
      fun _ hallowed hstep => not_limited_of_accept hallowed (step_steps hstep)

def stored (max_simultaneous_connections : Nat) : NodeServer :=
  { make 0 0 with max_simultaneous_connections }

-- Two clients, one after the other, with the limit at one.
def crowd : List ServerEvent :=
  [.server_main, .server_main, .accept true, .server_main, .accept true]

-- Here one comes and goes before the next.
def visits : List ServerEvent :=
  [.server_main, .server_main, .accept true, .disconnect 0, .handler 0, .server_main]

theorem visits_limited : ∃ t, Run step Always (stored 1) visits t ∧
    Throughout (Limited 1) step (stored 1) visits := by
  have hrun : Run step (TestsBelow 1) (stored 1) visits _ := .of_foldlM rfl
  exact ⟨_, hrun.always, (limited_throughout ⟨0, 0, .inr rfl⟩ hrun.always).1 hrun⟩

theorem crowd_not_limited :
    (∃ t, Run step Always (stored 1) crowd t ∧ ¬t.Limited 1) ∧
      ∃ t, Run step Always (make 1 0) crowd t ∧ ¬t.Limited 1 := by
  refine ⟨⟨_, .of_foldlM rfl, ?_⟩, ⟨_, .of_foldlM rfl, ?_⟩⟩ <;> decide

theorem step_max_simultaneous_connections {e : ServerEvent} (hstep : s.step e = some s') :
    s'.max_simultaneous_connections = s.max_simultaneous_connections := by
  cases step_steps hstep with
  | halt | exit => exact s.halt_frame.2.2
  | _ => rfl

-- A field that holds n lets server_main() through with n nodes, but not with more.
structure Overrun (n : Nat) (s : NodeServer) : Prop where
  field : s.max_simultaneous_connections = n
  below : s.Below (n + 1)

theorem Overrun.tests (h : s.Overrun n) (hn : 0 < n) (e : ServerEvent) : s.TestsBelow (n + 1) e := by
  cases e with
  | server_main =>
      rintro (⟨-, -, hlimit⟩ | ⟨-, hlimit⟩)
      all_goals
        rw [h.field] at hlimit
        omega
  | _ => exact trivial

theorem stored_limited (hn : 0 < n) (hrun : Run step Always (stored n) trace t) :
    t.Limited (n + 1) := by
  have hstart : (stored n).Overrun n := ⟨rfl, Nat.zero_le _, nofun⟩
  refine (hrun.invariant hstart fun {t u e} hinv _ hstep => ?_).below.limited
  exact ⟨(step_max_simultaneous_connections hstep).trans hinv.field,
    hinv.below.steps (hinv.tests hn e) (step_steps hstep)⟩

end NodeServer

end RoboCrisp.Comms
