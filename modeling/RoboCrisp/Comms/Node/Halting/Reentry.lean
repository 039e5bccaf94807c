import RoboCrisp.Comms.Node.Halting.Lemmas

namespace RoboCrisp.Comms

open RoboCrisp.Util RoboCrisp.Transition

-- What m_halting and m_halt_mutex are before each statement of a call that fails.
def HaltStage.failing : HaltStage → Option (Bool × Bool)
  | .test_and_set => some (false, false)
  | .lock => some (true, false)
  | .stop => some (true, true)
  | .can_halt => some (true, true)
  | .unstop => some (true, true)
  | .clear => some (true, true)
  | .poll _ => some (false, true)
  | .relock => some (true, true)
  | .returned false => some (false, false)
  | _ => none

namespace Handler

def size : Handler → Nat
  | .done => 0
  | .halt next => next.size + 1
  | .post posted next => posted.size + next.size + 2

end Handler

namespace Halting

variable {α : Type} {s s' t : Halting α} {q : Handler → Prop} {trace : List (HaltingEvent α)}

-- halt(false), about to be executed by a worker that does not hold the mutex.
structure CalledOnWorker (s : Halting α) : Prop where
  stage : s.stage = .test_and_set
  on_worker : s.on_worker = true
  force_try : s.force_try = false
  m_halt_mutex : s.m_halt_mutex = false

-- The thread wants to lock the mutex that it holds.
def Relocks (s : Halting α) : Prop := s.stage = .relock ∧ s.m_halt_mutex = true

-- Nobody else takes a step.
def OnlyHalt : Halting α → HaltingEvent α → Prop
  | _, .halt => True
  | _, _ => False

-- The call comes to its end, and never wants the mutex that it holds.
def RunsThrough (s : Halting α) : Prop :=
  (∃ trace t result, Run step OnlyHalt s trace t ∧ t.stage = .returned result) ∧
    ∀ {trace t}, Run step OnlyHalt s trace t → ¬t.Relocks

-- A call that fails because of the thread that it is made on.
structure Failing (s : Halting α) : Prop where
  on_worker : s.on_worker = true
  force_try : s.force_try = false
  failing : s.stage.failing = some (s.m_halting, s.m_halt_mutex)

theorem Failing.apart (h : s.Failing) (hapart : s.Apart s') : s'.Failing := by
  refine ⟨hapart.on_worker.trans h.on_worker, hapart.force_try.trans h.force_try, ?_⟩
  rw [hapart.stage, hapart.m_halting, hapart.m_halt_mutex]
  exact h.failing

theorem Failing.failing_at {stage : HaltStage} (h : s.Failing) (hstage : s.stage = stage) :
    stage.failing = some (s.m_halting, s.m_halt_mutex) := hstage ▸ h.failing

theorem Failing.halts (h : s.Failing) (hstep : s.Halts s') : s'.Failing := by
  have hfailing := h.failing
  cases hstep with
  | refuse hstage hhalting => exact absurd (h.failing_at hstage) (by simp [HaltStage.failing, hhalting])
  | go_on hstage hcan => exact absurd ⟨h.on_worker, h.force_try⟩ hcan
  | waiters hstage | no_waiters hstage | wake_all hstage | close hstage | join hstage =>
      exact absurd (h.failing_at hstage) (by simp [HaltStage.failing])
  | test_and_set hstage | lock hstage | stop hstage | fail hstage | unstop hstage | clear hstage
  | polled hstage | poll hstage | refuse_again hstage | relock hstage | post hstage =>
      rw [hstage] at hfailing
      refine ⟨h.on_worker, h.force_try, ?_⟩
      simp_all [HaltStage.failing]

-- A handler that `q` speaks of is ready or being run, or one that halts has met the mutex.
def Pending (q : Handler → Prop) (s : Halting α) : Prop :=
  (∃ handler ∈ s.io_service, q handler) ∨ (∃ handler, s.stage = .poll handler ∧ q handler) ∨
    s.stage = .relock

theorem Pending.apart (h : s.Pending q) (hapart : s.Apart s') : s'.Pending q := by
  rw [Pending, hapart.stage]
  rcases h with ⟨handler, hmem, hq⟩ | h
  · exact .inl ⟨handler, hapart.io_service.subset hmem, hq⟩
  · exact .inr h

theorem Pending.ready (h : s.Pending q) (hpoll : ∀ handler, s.stage ≠ .poll handler)
    (hrelock : s.stage ≠ .relock) : ∃ handler ∈ s.io_service, q handler := by
  rcases h with hready | ⟨handler, hstage, -⟩ | hstage
  · exact hready
  · exact absurd hstage (hpoll handler)
  · exact absurd hstage hrelock

-- poll() does not return before it has run the handler, and does not get through it.
theorem Failing.pending_halts (h : s.Failing) (hpending : s.Pending q) (hdone : ¬q .done)
    (hpost : ∀ {posted next}, q (.post posted next) → q posted ∨ q next) (hstep : s.Halts s') :
    s'.Pending q ∧ ∀ result, s'.stage ≠ .returned result := by
  cases hstep with
  | refuse hstage hhalting => exact absurd (h.failing_at hstage) (by simp [HaltStage.failing, hhalting])
  | go_on hstage hcan => exact absurd ⟨h.on_worker, h.force_try⟩ hcan
  | waiters hstage | no_waiters hstage | wake_all hstage | close hstage | join hstage =>
      exact absurd (h.failing_at hstage) (by simp [HaltStage.failing])
  | test_and_set hstage | lock hstage | stop hstage | fail hstage | unstop hstage | clear hstage =>
      exact ⟨.inl (hpending.ready (by simp [hstage]) (by simp [hstage])), nofun⟩
  | polled hstage hready =>
      rcases hpending with ⟨handler, hmem, -⟩ | ⟨handler, hrunning, hq⟩ | hrelock
      · rw [hready] at hmem
        exact absurd hmem List.not_mem_nil
      · obtain rfl := HaltStage.poll.inj (hstage.symm.trans hrunning)
        exact absurd hq hdone
      · exact absurd (hstage.symm.trans hrelock) (by simp)
  | poll hstage hready =>
      refine ⟨?_, nofun⟩
      rcases hpending with ⟨handler, hmem, hq⟩ | ⟨handler, hrunning, hq⟩ | hrelock
      · rw [hready] at hmem
        rcases List.mem_cons.mp hmem with rfl | hmem
        · exact .inr (.inl ⟨_, rfl, hq⟩)
        · exact .inl ⟨handler, hmem, hq⟩
      · obtain rfl := HaltStage.poll.inj (hstage.symm.trans hrunning)
        exact absurd hq hdone
      · exact absurd (hstage.symm.trans hrelock) (by simp)
  | refuse_again hstage hhalting =>
      exact absurd (h.failing_at hstage) (by simp [HaltStage.failing, hhalting])
  | relock => exact ⟨.inr (.inr rfl), nofun⟩
  | post hstage =>
      refine ⟨?_, nofun⟩
      rcases hpending with ⟨handler, hmem, hq⟩ | ⟨handler, hrunning, hq⟩ | hrelock
      · exact .inl ⟨handler, List.mem_append_left _ hmem, hq⟩
      · obtain rfl := HaltStage.poll.inj (hstage.symm.trans hrunning)
        rcases hpost hq with hq | hq
        · exact .inl ⟨_, List.mem_append_right _ List.mem_cons_self, hq⟩
        · exact .inr (.inl ⟨_, rfl, hq⟩)
      · exact absurd (hstage.symm.trans hrelock) (by simp)

-- No handler that is ready or being run halts the node.
structure Calm (s : Halting α) : Prop where
  ready : ∀ handler ∈ s.io_service, handler.halts = false
  running : ∀ handler, s.stage = .poll handler → handler.halts = false
  free : s.stage ≠ .relock

theorem Calm.same (h : s.Calm) (hready : s'.io_service = s.io_service)
    (hpoll : ∀ handler, s'.stage ≠ .poll handler) (hrelock : s'.stage ≠ .relock) : s'.Calm :=
  ⟨hready ▸ h.ready, fun handler hstage => absurd hstage (hpoll handler), hrelock⟩

theorem Calm.halts (h : s.Calm) (hstep : s.Halts s') : s'.Calm := by
  cases hstep with
  | clear => exact ⟨h.ready, fun _ hstage => HaltStage.poll.inj hstage ▸ rfl, nofun⟩
  | @poll handler rest hstage hready =>
      have hall := h.ready
      rw [hready] at hall
      refine ⟨fun other hmem => hall other (List.mem_cons_of_mem _ hmem), fun other hrunning => ?_, nofun⟩
      obtain rfl := HaltStage.poll.inj hrunning
      exact hall _ List.mem_cons_self
  | refuse_again hstage => exact absurd (h.running _ hstage) (by simp [Handler.halts])
  | relock hstage => exact absurd (h.running _ hstage) (by simp [Handler.halts])
  | @post posted next hstage =>
      have hquiet := h.running _ hstage
      rw [Handler.halts, Bool.or_eq_false_iff] at hquiet
      refine ⟨forall_mem_concat h.ready hquiet.1, fun other hrunning => ?_, nofun⟩
      obtain rfl := HaltStage.poll.inj hrunning
      exact hquiet.2
  | _ => exact h.same rfl nofun nofun

theorem Calm.run (h : s.Calm) (hrun : Run step OnlyHalt s trace t) : t.Calm := by
  refine hrun.invariant h ?_
  intro current next e hcalm hallowed hstep
  cases e with
  | halt => exact hcalm.halts (halt_step_halts hstep)
  | _ => exact absurd hallowed id

-- What is left of the work of poll().
def remaining (handler : Handler) (io_service : List Handler) : Nat :=
  handler.size + (io_service.map fun handler => handler.size + 1).sum

theorem run_halt {e : Halting α} (hstep : s.halt_step = some s') (hrun : Run step OnlyHalt s' trace e) :
    Run step OnlyHalt s (.halt :: trace) e := hrun.cons trivial hstep

-- Each step of poll() leaves less of it.
theorem Calm.poll_returns {handler : Handler} (h : s.Calm) (hstage : s.stage = .poll handler) :
    ∃ trace t, Run step OnlyHalt s trace t ∧ t.stage = .returned false := by
  induction hsize : remaining handler s.io_service using Nat.strongRecOn generalizing s handler with
  | ind size ih =>
      -- the next step leads to a state that the induction covers
      have hlater : ∀ {s' : Halting α} {next : Handler}, s.halt_step = some s' → s'.stage = .poll next →
          remaining next s'.io_service < size →
          ∃ trace t, Run step OnlyHalt s trace t ∧ t.stage = .returned false := by
        intro s' next hstep hnext hless
        obtain ⟨trace, t, hrun, hreturned⟩ := ih _ hless (h.halts (halt_step_halts hstep)) hnext rfl
        exact ⟨_, t, run_halt hstep hrun, hreturned⟩
      cases handler with
      | done =>
          cases hready : s.io_service with
          | nil =>
              have hstep : s.halt_step = some { s with m_halt_mutex := false, stage := .returned false } := by
                rw [halt_step, hstage]
                simp only [hready]
              exact ⟨_, _, run_halt hstep .start, rfl⟩
          | cons next rest =>
              have hstep : s.halt_step = some { s with io_service := rest, stage := .poll next } := by
                rw [halt_step, hstage]
                simp only [hready]
              refine hlater hstep rfl ?_
              rw [← hsize, hready]
              simp only [remaining, Handler.size, List.map_cons, List.sum_cons]
              omega
      | halt next => exact absurd (h.running _ hstage) (by simp [Handler.halts])
      | post posted next =>
          have hstep : s.halt_step =
              some { s with io_service := s.io_service ++ [posted], stage := .poll next } := by
            rw [halt_step, hstage]
          refine hlater hstep rfl ?_
          rw [← hsize]
          simp only [remaining, Handler.size, List.map_append, List.sum_append, List.map_cons,
            List.map_nil, List.sum_cons, List.sum_nil]
          omega

-- The statements before poll().
theorem CalledOnWorker.run_poll (h : s.CalledOnWorker) (hhalting : s.m_halting = false) :
    Run step OnlyHalt s (List.replicate 6 .halt)
      { s with m_stopped := false, m_halt_mutex := true, stage := .poll .done } := by
  obtain ⟨on_worker, force_try, m_halting, m_stopped, m_halt_mutex, _, _, _, _, _, stage⟩ := s
  obtain ⟨rfl, rfl, rfl, rfl⟩ := h
  obtain rfl : m_halting = false := hhalting
  exact run_halt rfl (run_halt rfl (run_halt rfl (run_halt rfl (run_halt rfl (run_halt rfl .start)))))

theorem CalledOnWorker.failing (h : s.CalledOnWorker) (hhalting : s.m_halting = false) : s.Failing := by
  refine ⟨h.on_worker, h.force_try, ?_⟩
  rw [h.stage, hhalting, h.m_halt_mutex]
  rfl

theorem halt_invariant {Inv : Halting α → Prop} (hrun : Run step OnlyHalt s trace t) (hstart : Inv s)
    (hstep : ∀ {s s'}, Inv s → s.Halts s' → Inv s') : Inv t := by
  refine hrun.invariant hstart ?_
  intro current next e hinv hallowed hnext
  cases e with
  | halt => exact hstep hinv (halt_step_halts hnext)
  | _ => exact absurd hallowed id

-- A call that will want the mutex again before its end.
structure Snared (s : Halting α) : Prop where
  failing : s.Failing
  pending : s.Pending fun handler => handler.halts = true
  running : ∀ result, s.stage ≠ .returned result

theorem Snared.halts (h : s.Snared) (hstep : s.Halts s') : s'.Snared := by
  obtain ⟨hpending, hrunning⟩ := h.failing.pending_halts h.pending nofun (by simp [Handler.halts]) hstep
  exact ⟨h.failing.halts hstep, hpending, hrunning⟩

-- A handler that halts the node keeps the call from its end.
theorem CalledOnWorker.not_returned {handler : Handler} {result : Bool} (h : s.CalledOnWorker)
    (hhalting : s.m_halting = false) (hmem : handler ∈ s.io_service) (hhalts : handler.halts = true)
    (hrun : Run step OnlyHalt s trace t) : t.stage ≠ .returned result := by
  have hpending : s.Pending fun handler => handler.halts = true := .inl ⟨handler, hmem, hhalts⟩
  have hstart : s.Snared := ⟨h.failing hhalting, hpending, h.stage ▸ nofun⟩
  exact (halt_invariant hrun hstart Snared.halts).running result

-- It has found m_halting set, or is going to.
def Refused (s : Halting α) : Prop :=
  (s.stage = .test_and_set ∧ s.m_halting = true) ∨ s.stage = .returned false

theorem Refused.halts (h : s.Refused) (hstep : s.Halts s') : s'.Refused := by
  rcases h with ⟨hstage, hhalting⟩ | hstage
  · cases hstep <;> simp_all [Refused]
  · cases hstep <;> simp_all

-- While another call is under way, nothing is done at all.
theorem CalledOnWorker.runsThrough_of_halting (h : s.CalledOnWorker) (hhalting : s.m_halting = true) :
    s.RunsThrough := by
  constructor
  · have hstep : s.halt_step = some { s with stage := .returned false } := by
      rw [halt_step, h.stage]
      simp only [hhalting, if_true]
    exact ⟨_, _, false, run_halt hstep .start, rfl⟩
  · intro trace t hrun hrelocks
    have hstart : s.Refused := .inl ⟨h.stage, hhalting⟩
    have hrefused := halt_invariant hrun hstart Refused.halts
    rw [Refused, hrelocks.1] at hrefused
    exact absurd hrefused (by simp)

theorem CalledOnWorker.runsThrough_of_calm (h : s.CalledOnWorker) (hhalting : s.m_halting = false)
    (hready : ∀ handler ∈ s.io_service, handler.halts = false) : s.RunsThrough := by
  have hcalm : s.Calm :=
    ⟨hready, fun handler hstage => absurd (h.stage.symm.trans hstage) nofun, h.stage ▸ nofun⟩
  constructor
  · have hbefore := h.run_poll hhalting
    obtain ⟨after, t, hafter, hreturned⟩ := (hcalm.run hbefore).poll_returns rfl
    exact ⟨_, t, false, hbefore.append hafter, hreturned⟩
  · intro trace t hrun hrelocks
    exact (hcalm.run hrun).free hrelocks.1

-- A halt(false) on a worker gets through exactly when another call is under way, or none of
-- the handlers that are ready, nor one that they post, calls halt().
theorem runsThrough_iff (h : s.CalledOnWorker) :
    s.RunsThrough ↔ s.m_halting = true ∨ ∀ handler ∈ s.io_service, handler.halts = false := by
  constructor
  · rintro ⟨⟨trace, t, result, hrun, hreturned⟩, -⟩
    by_contra hneither
    obtain ⟨hhalting, hhandlers⟩ := not_or.mp hneither
    obtain ⟨handler, hmem, hhalts⟩ : ∃ handler ∈ s.io_service, handler.halts = true := by
      simpa using hhandlers
    exact h.not_returned (Bool.eq_false_iff.mpr hhalting) hmem hhalts hrun hreturned
  · intro heither
    cases hhalting : s.m_halting with
    | true => exact h.runsThrough_of_halting hhalting
    | false => exact h.runsThrough_of_calm hhalting (heither.resolve_left (by simp [hhalting]))

-- A worker calls halt() while nothing is ready but a handler that posts another one.
theorem posting_runsThrough : (launched true false [0] [.post .done .done]).RunsThrough :=
  (runsThrough_iff ⟨rfl, rfl, rfl, rfl⟩).mpr (.inr (by decide))

-- One of the loops has posted a call of halt() on its way out.
theorem posted_not_runsThrough :
    ¬∀ s : Halting Nat, s.CalledOnWorker → s.RunsThrough := by
  intro h
  obtain ⟨-, hfree⟩ := h (launched true false [] [.bound_halt]) ⟨rfl, rfl, rfl, rfl⟩
  have hrun : Run step OnlyHalt (launched true false [] [.bound_halt]) (List.replicate 8 .halt)
      { launched true false ([] : List Nat) [] with
        m_halting := true
        m_halt_mutex := true
        stage := .relock } :=
    run_halt rfl (run_halt rfl (run_halt rfl (run_halt rfl (run_halt rfl (run_halt rfl (run_halt rfl
      (run_halt rfl .start)))))))
  exact hfree hrun ⟨rfl, rfl⟩

end Halting

end RoboCrisp.Comms
