import RoboCrisp.Transition.Progress
import RoboCrisp.Util.WorkerObject.Threads

namespace RoboCrisp.Util

open RoboCrisp.Transition

-- A call of halt() is under way.
def OwnerStage.halting : OwnerStage → Bool
  | .can_halt | .reset | .start_halt_thread | .start_make_work_thread | .join_halt_thread
  | .join_make_work_thread => true
  | _ => false

-- The steps that are left to a thread that has been told to exit, once run() is back.
def ThreadStage.distance : ThreadStage → Nat
  | .test => 1
  | .run => 2
  | .halting | .exited => 0

-- Those of the threads that halt() starts and of the one that has called it, with an array of
-- `n` elements.
def HaltThread.distance (n : Nat) : HaltThread → Nat
  | .tell i => n - i + n + 3
  | .wait i => n - i + 2
  | .clear => 1
  | .absent | .exited => 0

def MakeWorkThread.distance : MakeWorkThread → Nat
  | .test => 1
  | .post => 2
  | .absent | .exited => 0

def OwnerStage.distance (n : Nat) : OwnerStage → Nat
  | .can_halt => 2 * n + 10
  | .reset => 2 * n + 9
  | .start_halt_thread => 2 * n + 8
  | .start_make_work_thread => 4
  | .join_halt_thread => 2
  | .join_make_work_thread => 1
  | _ => 0

namespace WorkerObject

variable {s t : WorkerObject} {e : PoolEvent} {id : Nat} {back : Nat → Prop}

-- What is left to do before a call of halt() is back.
def distance (s : WorkerObject) : Nat :=
  s.owner.distance s.m_worker_threads.length + s.halt_thread.distance s.m_worker_threads.length +
    s.make_work_thread.distance + (s.threads.map fun thread => thread.stage.distance).sum

def InRun (s : WorkerObject) (id : Nat) : Prop := s.threads[id]?.map Thread.stage = some .run

-- The io_service lets run() come back only on the threads of `back`.
def Released (back : Nat → Prop) (s : WorkerObject) (e : PoolEvent) : Prop :=
  s.Guarded e ∧ ∀ id, e = .thread id → s.InRun id → back id

-- It lets it come back on each thread that is in there.
def Unhindered (back : Nat → Prop) (s : WorkerObject) : Prop := ∀ id, s.InRun id → back id

theorem inRun_iff : s.InRun id ↔ ∃ i, s.threads[id]? = some ⟨i, .run⟩ := by
  rw [InRun, Option.map_eq_some_iff]
  constructor
  · rintro ⟨⟨i, stage⟩, hthread, rfl⟩
    exact ⟨i, hthread⟩
  · rintro ⟨i, hthread⟩
    exact ⟨_, hthread, rfl⟩

theorem inRun_set_stage {stage : ThreadStage} {other : Nat} (hinside : (s.set_stage id stage).InRun other) :
    s.InRun other ∨ stage = .run := by
  obtain ⟨i, hthread⟩ := inRun_iff.mp hinside
  rw [get_set_stage] at hthread
  obtain ⟨before, hbefore, hafter⟩ := Option.map_eq_some_iff.mp hthread
  split at hafter
  · exact .inr (Thread.mk.inj hafter).2
  · rw [hafter] at hbefore
    exact .inl (inRun_iff.mpr ⟨i, hbefore⟩)

theorem Unhindered.congr (h : s.Unhindered back) (hthreads : t.threads = s.threads) : t.Unhindered back := by
  simp only [Unhindered, InRun, hthreads]
  exact h

theorem Unhindered.set_stage (h : s.Unhindered back) {stage : ThreadStage} (hstage : stage ≠ .run) :
    (s.set_stage id stage).Unhindered back := fun other hinside =>
  h other ((inRun_set_stage hinside).resolve_right hstage)

-- Some step of the pool leads nearer to the end.
def Nearer (back : Nat → Prop) (s : WorkerObject) : Prop :=
  ∃ e t, s.Released back e ∧ s.step e = some t ∧ t.Unhindered back ∧ t.distance < s.distance ∧
    (t.owner.halting = true ∨ t.owner = .halted true)

theorem nearer_of_turn (h : s.Unhindered back) (howner : s.owner.halting = true) {thread : Thread}
    (hthread : s.threads[id]? = some thread) {stage : ThreadStage} (hstage : stage ≠ .run)
    (hstep : s.thread_step id = some (s.set_stage id stage)) (hlt : stage.distance < thread.stage.distance) :
    s.Nearer back := by
  have hsum : ((s.set_stage id stage).threads.map fun thread => thread.stage.distance).sum +
      thread.stage.distance = (s.threads.map fun thread => thread.stage.distance).sum + stage.distance :=
    sum_map_modify (fun thread => thread.stage.distance) _ hthread
  refine ⟨.thread id, s.set_stage id stage, ⟨trivial, ?_⟩, hstep, h.set_stage hstage, ?_, .inl howner⟩
  · intro other heq hinside
    exact h other hinside
  · simp only [distance, WorkerObject.set_stage] at hsum ⊢
    omega

-- The thread that has called halt() goes on.
theorem nearer_of_owner (hstep : s.owner_step = some t) (h : t.Unhindered back)
    (hlt : t.distance < s.distance) (howner : t.owner.halting = true ∨ t.owner = .halted true) :
    s.Nearer back :=
  ⟨.owner, t, ⟨trivial, by simp⟩, hstep, h, hlt, howner⟩

-- So does the one that halts the others.
theorem nearer_of_halt_thread (hstep : s.halt_thread_step = some t) (h : t.Unhindered back)
    (hlt : t.distance < s.distance) (howner : t.owner.halting = true) : s.Nearer back :=
  ⟨.halt_thread, t, ⟨trivial, by simp⟩, hstep, h, hlt, .inl howner⟩

theorem nearer_of_making (hstep : s.make_work_step = some t) (h : t.Unhindered back)
    (hlt : t.distance < s.distance) (howner : t.owner.halting = true) : s.Nearer back :=
  ⟨.make_work_thread, t, ⟨trivial, by simp⟩, hstep, h, hlt, .inl howner⟩

-- A thread that has been told to exit can go on as long as it has not come to its end.
theorem Sound.nearer_of_thread (h : s.Sound) (hback : s.Unhindered back) (howner : s.owner.halting = true)
    (htold : ∀ worker ∈ s.m_worker_threads, worker.joinable = true → worker.should_halt = true)
    {thread : Thread} (hthread : s.threads[id]? = some thread) (hrunning : thread.stage ≠ .exited) :
    s.Nearer back := by
  obtain ⟨i, stage⟩ := thread
  cases stage with
  | test =>
      have hstore : s.owner ≠ .store_handle id := by
        intro hstore
        rw [hstore] at howner
        exact absurd howner (by simp [OwnerStage.halting])
      obtain ⟨worker, hworker, hid⟩ := h.owned.alive hthread hrunning
      have hhandle := hid.resolve_right fun hnew => hstore hnew.2
      have hhalt := htold worker (List.mem_of_getElem? hworker) (by simp [WorkerThread.joinable, hhandle])
      have hstep : s.thread_step id = some (s.set_stage id .exited) := by
        simp only at hworker
        simp [thread_step, hthread, hworker, hhalt]
      exact nearer_of_turn hback howner hthread (by simp) hstep (by simp [ThreadStage.distance])
  | run =>
      have hstep : s.thread_step id = some (s.set_stage id .test) := by simp [thread_step, hthread]
      exact nearer_of_turn hback howner hthread (by simp) hstep (by simp [ThreadStage.distance])
  | halting => exact absurd rfl (h.owned.outside _ (List.mem_of_getElem? hthread))
  | exited => exact absurd rfl hrunning

theorem Sound.nearer_of_wait (h : s.Sound) (hback : s.Unhindered back) (howner : s.owner.halting = true)
    {i : Nat} (hhalt : s.halt_thread = .wait i) : s.Nearer back := by
  have htold := h.told
  rw [Told, hhalt] at htold
  cases hworker : s.m_worker_threads[i]? with
  | none =>
      have hstep : s.halt_thread_step = some { s with halt_thread := .clear } := by
        simp [halt_thread_step, hhalt, hworker]
      refine nearer_of_halt_thread hstep (hback.congr rfl) ?_ howner
      simp only [distance, hhalt, HaltThread.distance]
      omega
  | some worker =>
      have hi := (List.getElem?_eq_some_iff.mp hworker).1
      by_cases hjoins : s.joins worker = true
      · have hstep : s.halt_thread_step = some { s.join i with halt_thread := .wait (i + 1) } := by
          simp [halt_thread_step, hhalt, hworker, hjoins]
        refine nearer_of_halt_thread hstep (hback.congr rfl) ?_ howner
        simp only [distance, hhalt, HaltThread.distance, WorkerObject.join, List.length_modify]
        omega
      · cases hid : worker.thread with
        | none => exact absurd (by rw [joins, hid]) hjoins
        | some id =>
            obtain ⟨thread, hthread, -⟩ := h.owned.handle hworker hid
            have hrunning : thread.stage ≠ .exited := by
              intro hexited
              exact hjoins (by simp [joins, hid, hthread, hexited])
            exact h.nearer_of_thread hback howner htold.1 hthread hrunning

theorem Sound.nearer_of_telling (h : s.Sound) (hback : s.Unhindered back)
    (howner : s.owner = .join_halt_thread) : s.Nearer back := by
  have hhalting : s.owner.halting = true := by rw [howner]; rfl
  have hphased := h.phased
  rw [Phased, howner] at hphased
  obtain ⟨hpresent, -, -⟩ := hphased
  cases hhalt : s.halt_thread with
  | absent => exact absurd hhalt hpresent
  | tell i =>
      by_cases hi : i < s.m_worker_threads.length
      · have hstep : s.halt_thread_step = some { s.tell i with halt_thread := .tell (i + 1) } := by
          simp [halt_thread_step, hhalt, hi]
        refine nearer_of_halt_thread hstep (hback.congr rfl) ?_ hhalting
        simp only [distance, hhalt, HaltThread.distance, WorkerObject.tell, List.length_modify]
        omega
      · have hstep : s.halt_thread_step = some { s with halt_thread := .wait 0 } := by
          simp [halt_thread_step, hhalt, hi]
        refine nearer_of_halt_thread hstep (hback.congr rfl) ?_ hhalting
        simp only [distance, hhalt, HaltThread.distance]
        omega
  | wait i => exact h.nearer_of_wait hback hhalting hhalt
  | clear =>
      have htold := h.told
      rw [Told, hhalt] at htold
      have hjoins : s.m_worker_threads.all s.joins = true := by
        rw [List.all_eq_true]
        intro worker hmem
        have hempty := htold worker hmem
        rw [WorkerThread.joinable, Option.isSome_eq_false_iff, Option.isNone_iff_eq_none] at hempty
        rw [joins, hempty]
      have hstep : s.halt_thread_step = some { s with m_worker_threads := [], halt_thread := .exited } := by
        simp only [halt_thread_step, hhalt, hjoins, if_true]
      refine nearer_of_halt_thread hstep (hback.congr rfl) ?_ hhalting
      simp only [distance, hhalt, howner, HaltThread.distance, OwnerStage.distance]
      omega
  | exited =>
      have hstep : s.owner_step =
          some { s with halt_thread := .absent, owner := .join_make_work_thread } := by
        simp [owner_step, howner, hhalt]
      refine nearer_of_owner hstep (hback.congr rfl) ?_ (.inl rfl)
      simp only [distance, hhalt, howner, HaltThread.distance, OwnerStage.distance]
      omega

-- With an empty array nothing is running.
theorem Sound.nearer_of_posting (h : s.Sound) (hback : s.Unhindered back)
    (howner : s.owner = .join_make_work_thread) : s.Nearer back := by
  have hphased := h.phased
  rw [Phased, howner] at hphased
  obtain ⟨-, hpresent, -, hworkers⟩ := hphased
  have hhalting : s.owner.halting = true := by rw [howner]; rfl
  cases hmake : s.make_work_thread with
  | absent => exact absurd hmake hpresent
  | test =>
      have hrunning : s.running false = false := by simp [running, hworkers]
      have hstep : s.make_work_step = some { s with make_work_thread := .exited } := by
        simp [make_work_step, hmake, hrunning]
      refine nearer_of_making hstep (hback.congr rfl) ?_ hhalting
      simp only [distance, hmake, MakeWorkThread.distance]
      omega
  | post =>
      have hstep : s.make_work_step = some { s with make_work_thread := .test } := by
        simp [make_work_step, hmake]
      refine nearer_of_making hstep (hback.congr rfl) ?_ hhalting
      simp only [distance, hmake, MakeWorkThread.distance]
      omega
  | exited =>
      have hstep : s.owner_step = some { s with make_work_thread := .absent, owner := .halted true } := by
        simp [owner_step, howner, hmake]
      refine nearer_of_owner hstep (hback.congr rfl) ?_ (.inr rfl)
      simp only [distance, hmake, howner, MakeWorkThread.distance, OwnerStage.distance]
      omega

theorem Sound.nearer (h : s.Sound) (hback : s.Unhindered back) (howner : s.owner.halting = true) :
    s.Nearer back := by
  have hphased := h.phased
  rw [Phased] at hphased
  cases hstage : s.owner with
  | can_halt =>
      have hstep : s.owner_step = some { s with owner := .reset } := by
        simp [owner_step, hstage, can_halt_none]
      refine nearer_of_owner hstep (hback.congr rfl) ?_ (.inl rfl)
      simp only [distance, hstage, OwnerStage.distance]
      omega
  | reset =>
      have hstep : s.owner_step = some { s with m_thread_waiter := false, owner := .start_halt_thread } := by
        simp [owner_step, hstage]
      refine nearer_of_owner hstep (hback.congr rfl) ?_ (.inl rfl)
      simp only [distance, hstage, OwnerStage.distance]
      omega
  | start_halt_thread =>
      rw [hstage] at hphased
      have hstep : s.owner_step =
          some { s with halt_thread := .tell 0, owner := .start_make_work_thread } := by
        simp [owner_step, hstage]
      refine nearer_of_owner hstep (hback.congr rfl) ?_ (.inl rfl)
      simp only [distance, hstage, hphased.1, OwnerStage.distance, HaltThread.distance]
      omega
  | start_make_work_thread =>
      rw [hstage] at hphased
      have hstep : s.owner_step = some { s with make_work_thread := .test, owner := .join_halt_thread } := by
        simp [owner_step, hstage]
      refine nearer_of_owner hstep (hback.congr rfl) ?_ (.inl rfl)
      simp only [distance, hstage, hphased.2.1, OwnerStage.distance, MakeWorkThread.distance]
      omega
  | join_halt_thread => exact h.nearer_of_telling hback hstage
  | join_make_work_thread => exact h.nearer_of_posting hback hstage
  | _ => exact absurd howner (by simp [hstage, OwnerStage.halting])

theorem Sound.returns (h : s.Sound) (hback : s.Unhindered back) (howner : s.owner.halting = true) :
    ∃ more t, Run WorkerObject.step (Released back) s more t ∧ t.owner = .halted true := by
  have happroach : Approaches WorkerObject.step (Released back)
      (fun s => s.Sound ∧ s.Unhindered back ∧ (s.owner.halting = true ∨ s.owner = .halted true))
      (fun s => s.owner = .halted true) distance := by
    rintro s ⟨h, hback, howner⟩ hgoal
    obtain ⟨e, t, hreleased, hstep, hlater, hlt, howner⟩ := h.nearer hback (howner.resolve_right hgoal)
    exact ⟨e, t, hreleased, hstep, ⟨h.step hreleased.1 hstep, hlater, howner⟩, hlt⟩
  obtain ⟨more, t, hrun, -, hgoal⟩ := happroach.reaches ⟨h, hback, .inl howner⟩
  exact ⟨more, t, hrun, hgoal⟩

theorem InRun.set_stage (h : s.InRun id) {other : Nat} {thread : Thread} {stage : ThreadStage}
    (hthread : s.threads[other]? = some thread) (hstage : thread.stage ≠ .run) :
    (s.set_stage other stage).InRun id := by
  obtain ⟨i, hi⟩ := inRun_iff.mp h
  have hne : other ≠ id := by
    rintro rfl
    exact hstage (congrArg Thread.stage (Option.some.inj (hthread.symm.trans hi)))
  rw [InRun, get_set_stage, hi, Option.map_some, if_neg hne, Option.map_some]

-- A thread in run() stays there until that is back.
theorem InRun.step (h : s.InRun id) (howned : s.Owned) (hreleased : s.Released back e) (hnever : ¬back id)
    (hstep : s.step e = some t) : t.InRun id := by
  obtain ⟨i, hi⟩ := inRun_iff.mp h
  cases step_steps hstep with
  | start_thread =>
      rw [InRun]
      change (s.threads ++ [_])[id]?.map Thread.stage = some .run
      rw [get_concat_of_get hi, Option.map_some]
  | test hthread => exact h.set_stage hthread (by simp)
  | @back other j hthread =>
      have hne : other ≠ id := by
        rintro rfl
        exact hnever (hreleased.2 other rfl h)
      rw [InRun, get_set_stage, hi, Option.map_some, if_neg hne, Option.map_some]
  | halts hthread hcan =>
      rw [can_halt_eq_false_iff.mpr (howned.stored hthread (by simp) hreleased.1)] at hcan
      exact absurd hcan (by simp)
  | _ => exact h

-- Then no call of halt() comes to its end.
theorem Sound.stays (h : s.Sound) (hinside : s.InRun id) (hnever : ¬back id) {more : List PoolEvent}
    (hrun : Run WorkerObject.step (Released back) s more t) : t.Sound ∧ t.InRun id := by
  induction hrun with
  | start => exact ⟨h, hinside⟩
  | next _ hreleased hstep ih =>
      exact ⟨ih.1.step hreleased.1 hstep, ih.2.step ih.1.owned hreleased hnever hstep⟩

section Runs

variable {capacity : Nat} {trace : List PoolEvent}

-- A call of halt() that is under way can come to its end exactly if the io_service lets run() come
-- back on each thread of the pool that is in there, whatever else is posted to it. As long as one of
-- them stays in there the call waits.
theorem halt_can_return_iff (back : Nat → Prop) (hrun : Run step Guarded (start capacity) trace s)
    (howner : s.owner.halting = true) :
    (∃ more t, Run step (Released back) s more t ∧ t.owner = .halted true) ↔
      ∀ id : Nat, s.threads[id]?.map Thread.stage = some .run → back id := by
  have h := sound_of_run hrun
  constructor
  · rintro ⟨more, t, hmore, hreturned⟩ id hinside
    by_contra hnever
    obtain ⟨hlater, hstays⟩ := h.stays hinside hnever hmore
    obtain ⟨i, hi⟩ := inRun_iff.mp hstays
    obtain ⟨-, -, -, -, hexited⟩ := hlater.halted hreturned
    exact absurd (hexited _ (List.mem_of_getElem? hi)) (by simp)
  · exact fun hback => h.returns hback howner

-- The one thread of the pool is in run().
theorem halt_can_return_of_one : ∃ s, Run step Guarded (start 1) (launching ++ [.call .halt]) s ∧
    (∃ more t, Run step (Released fun _ => True) s more t ∧ t.owner = .halted true) ∧
      ¬∃ more t, Run step (Released fun _ => False) s more t ∧ t.owner = .halted true := by
  have hlast : ((launching ++ [PoolEvent.call .halt]).foldlM (guarded step Guarded) (start 1)).map
      (fun s => (s.owner, s.threads)) = some (.can_halt, [⟨0, .run⟩]) := by decide
  obtain ⟨s, hs, heq⟩ := Option.map_eq_some_iff.mp hlast
  obtain ⟨howner, hthreads⟩ := Prod.mk.inj heq
  have hrun := Run.of_foldlM hs
  have hhalting : s.owner.halting = true := by rw [howner]; rfl
  refine ⟨s, hrun, (halt_can_return_iff _ hrun hhalting).mpr fun _ _ => trivial, fun hreturns => ?_⟩
  exact (halt_can_return_iff _ hrun hhalting).mp hreturns 0 (by rw [hthreads]; rfl)

end Runs

end WorkerObject

end RoboCrisp.Util
