import RoboCrisp.Comms.Node.Halting.Reentry

namespace RoboCrisp.Comms

open RoboCrisp.Util RoboCrisp.Transition

-- m_stopped has been set, and a call that fails has not taken it back.
def HaltStage.between : HaltStage → Bool
  | .can_halt => true
  | .unstop => true
  | _ => false

namespace Halting

variable {α : Type} {s s' t : Halting α} {trace : List (HaltingEvent α)}

-- Both loops run, or the node is stopped, or a call of halt() waits in the io_service.
def Attended (s : Halting α) : Prop :=
  (s.send_loop ≠ .exited ∧ s.receive_loop ≠ .exited) ∨ s.m_stopped = true ∨ .bound_halt ∈ s.io_service

instance [DecidableEq α] (s : Halting α) : Decidable s.Attended :=
  inferInstanceAs (Decidable ((_ ∧ _) ∨ _ ∨ _))

-- No loop takes its last look at m_stopped between the two stores.
def LeavesApart (s : Halting α) : HaltingEvent α → Prop
  | .send_loop _ _ => s.stage.between = true → s.send_loop ≠ .leave
  | .receive_loop _ _ => s.stage.between = true → s.receive_loop ≠ .leave
  | _ => True

instance [DecidableEq α] (s : Halting α) : (e : HaltingEvent α) → Decidable (s.LeavesApart e)
  | .send_loop _ _ => inferInstanceAs (Decidable (s.stage.between = true → s.send_loop ≠ .leave))
  | .receive_loop _ _ => inferInstanceAs (Decidable (s.stage.between = true → s.receive_loop ≠ .leave))
  | .halt | .send _ => .isTrue trivial

-- While the call goes on, what a loop has posted may have come to be run by poll().
structure Watched (s : Halting α) : Prop where
  failing : s.Failing
  m_stopped : s.m_stopped = s.stage.between
  loops : (s.send_loop ≠ .exited ∧ s.receive_loop ≠ .exited) ∨ s.Pending (· = .bound_halt)

theorem Halts.loops (h : s.Halts s') : s'.send_loop = s.send_loop ∧ s'.receive_loop = s.receive_loop := by
  cases h <;> exact ⟨rfl, rfl⟩

theorem Watched.halts (h : s.Watched) (hstep : s.Halts s') : s'.Watched := by
  refine ⟨h.failing.halts hstep, ?_, ?_⟩
  · have hstopped := h.m_stopped
    have hfailing := (h.failing.halts hstep).failing
    cases hstep <;> simp_all [HaltStage.between, HaltStage.failing]
  · obtain ⟨hsend, hreceive⟩ := hstep.loops
    rw [hsend, hreceive]
    rcases h.loops with hloops | hpending
    · exact .inl hloops
    · exact .inr (h.failing.pending_halts hpending (by rintro ⟨⟩) (by rintro _ _ ⟨⟩) hstep).1

-- A loop that has not left goes on, or the next look at m_stopped makes it post the call.
theorem Watched.apart (h : s.Watched) (hapart : s.Apart s')
    (hsend : s'.send_loop = .exited → s.send_loop = .exited ∨ .bound_halt ∈ s'.io_service)
    (hreceive : s'.receive_loop = .exited → s.receive_loop = .exited ∨ .bound_halt ∈ s'.io_service) :
    s'.Watched := by
  refine ⟨h.failing.apart hapart, ?_, ?_⟩
  · rw [hapart.m_stopped, hapart.stage]
    exact h.m_stopped
  · by_cases hposted : .bound_halt ∈ s'.io_service
    · exact .inr (.inl ⟨_, hposted, rfl⟩)
    · rcases h.loops with ⟨hfirst, hsecond⟩ | hpending
      · refine .inl ⟨fun hexited => ?_, fun hexited => ?_⟩
        · exact hfirst ((hsend hexited).resolve_right hposted)
        · exact hsecond ((hreceive hexited).resolve_right hposted)
      · exact .inr (hpending.apart hapart)

theorem Watched.mem_leave (h : s.Watched) (hbetween : ¬s.stage.between = true) :
    .bound_halt ∈ s.leave.io_service := by
  rw [leave, h.m_stopped, if_neg hbetween]
  exact List.mem_append_right _ List.mem_cons_self

theorem SendStage.of_call_ne_exited (call : NextCall α) : SendStage.of_call call ≠ .exited := by
  cases call with
  | returned out => cases out <;> nofun
  | _ => nofun

theorem Watched.sends (h : s.Watched) (hallowed : s.stage.between = true → s.send_loop ≠ .leave)
    (hstep : s.Sends s') : s'.Watched := by
  refine h.apart hstep.apart ?_ ?_
  · intro hexited
    cases hstep with
    | leave hstage => exact .inr (h.mem_leave fun hbetween => hallowed hbetween hstage)
    | call => exact absurd hexited (SendStage.of_call_ne_exited _)
    | _ => exact absurd hexited nofun
  · intro hexited
    cases hstep with
    | leave => exact .inl (s.leave_loops.2.symm.trans hexited)
    | _ => exact .inl hexited

theorem Watched.receives (h : s.Watched) (hallowed : s.stage.between = true → s.receive_loop ≠ .leave)
    (hstep : s.Receives s') : s'.Watched := by
  refine h.apart hstep.apart ?_ ?_
  · intro hexited
    cases hstep with
    | turn => exact .inl hexited
    | leave => exact .inl (s.leave_loops.1.symm.trans hexited)
  · intro hexited
    cases hstep with
    | turn hnext => exact absurd hexited hnext
    | leave hstage => exact .inr (h.mem_leave fun hbetween => hallowed hbetween hstage)

theorem step_watched {e : HaltingEvent α} (hinv : s.Watched) (hallowed : s.LeavesApart e)
    (hstep : s.step e = some s') : s'.Watched := by
  cases e with
  | halt => exact hinv.halts (halt_step_halts hstep)
  | send_loop => exact hinv.sends hallowed (send_step_sends hstep)
  | receive_loop => exact hinv.receives hallowed (receive_step_receives hstep)
  | send m =>
      obtain rfl := Option.some.inj hstep
      exact { hinv with failing := hinv.failing.apart { Apart.refl s with } }

-- A halt(false) that fails on a worker leaves no loop behind that has gone without a trace, as
-- long as none takes its last look at m_stopped while that is set only for the moment.
theorem failed_halt_attended (hcalled : s.CalledOnWorker) (hhalting : s.m_halting = false)
    (hrunning : s.m_stopped = false) (hattended : s.Attended) (hrun : Run step LeavesApart s trace t)
    (hreturned : t.stage = .returned false) : t.Attended := by
  have hstart : s.Watched := by
    refine ⟨hcalled.failing hhalting, ?_, ?_⟩
    · rw [hrunning, hcalled.stage]
      rfl
    · rcases hattended with hloops | hstopped | hposted
      · exact .inl hloops
      · rw [hrunning] at hstopped
        exact absurd hstopped Bool.false_ne_true
      · exact .inr (.inl ⟨_, hposted, rfl⟩)
  rcases (hrun.invariant hstart step_watched).loops with hloops | hpending
  · exact .inl hloops
  · obtain ⟨handler, hmem, rfl⟩ := hpending.ready (by simp [hreturned]) (by simp [hreturned])
    exact .inr (.inr hmem)

-- The receive loop takes its last look when the call has returned.
def lateTrace : List (HaltingEvent Nat) :=
  [.receive_loop true [], .receive_loop false []] ++ List.replicate 7 .halt ++ [.receive_loop true []]

def late : Halting Nat :=
  (lateTrace.foldlM (guarded step LeavesApart) (launched true false [] [])).get (by decide)

theorem late_attended : late.receive_loop = .exited ∧ late.Attended := by
  have hrun : Run step LeavesApart (launched true false [] []) lateTrace late :=
    Run.of_foldlM (Option.some_get _).symm
  have hattended : (launched true false ([] : List Nat) []).Attended := .inl (by decide)
  exact ⟨by decide, failed_halt_attended ⟨rfl, rfl, rfl, rfl⟩ rfl rfl hattended hrun (by decide)⟩

-- It sees m_stopped set, twice, before the call takes it back.
def misledTrace : List (HaltingEvent Nat) :=
  List.replicate 3 .halt ++ [.receive_loop true [], .receive_loop true []] ++ List.replicate 4 .halt

def misled : Halting Nat :=
  (misledTrace.foldlM (guarded step Always) (launched true false [] [])).get (by decide)

theorem misled_not_attended :
    Run step Always (launched true false [] []) misledTrace misled ∧ misled.stage = .returned false ∧
      ¬misled.Attended :=
  ⟨Run.of_foldlM (Option.some_get _).symm, by decide, by decide⟩

end Halting

end RoboCrisp.Comms
