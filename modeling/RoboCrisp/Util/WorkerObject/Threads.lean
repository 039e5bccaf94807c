import RoboCrisp.Util.WorkerObject.Lemmas

namespace RoboCrisp.Util.WorkerObject

open RoboCrisp.Transition

variable {s t : WorkerObject} {e : PoolEvent} {id : Nat}

-- The handle of a thread is in the array.
def Stored (s : WorkerObject) (id : Nat) : Prop := ∃ worker ∈ s.m_worker_threads, worker.thread = some id

-- No handler calls halt() on a thread that has been started and is about to be stored.
def Guarded (s : WorkerObject) : PoolEvent → Prop
  | .handler_halt id => s.owner ≠ .store_handle id
  | _ => True

instance (s : WorkerObject) : (e : PoolEvent) → Decidable (s.Guarded e)
  | .handler_halt id => inferInstanceAs (Decidable (s.owner ≠ .store_handle id))
  | .call _ | .owner | .thread _ | .halt_thread | .make_work_thread => .isTrue trivial

-- A pool in which no thread waits for itself.
def Outside (s : WorkerObject) : Prop := ∀ thread ∈ s.threads, thread.stage ≠ .halting

-- Who has which thread: one that has not come to its end is that of the element that it has
-- been given, or will be as soon as its handle is stored; a handle in the array is that of a thread
-- with this place; and none is inside halt().
structure Owned (s : WorkerObject) : Prop where
  alive : ∀ {id : Nat} {thread : Thread}, s.threads[id]? = some thread → thread.stage ≠ .exited →
    ∃ worker, s.m_worker_threads[thread.worker]? = some worker ∧
      (worker.thread = some id ∨ worker.thread = none ∧ s.owner = .store_handle id)
  handle : ∀ {i id : Nat} {worker : WorkerThread}, s.m_worker_threads[i]? = some worker → worker.thread = some id →
    ∃ thread, s.threads[id]? = some thread ∧ thread.worker = i
  outside : s.Outside

theorem start_owned (capacity : Nat) : (start capacity).Owned := by
  constructor <;> simp [start, Outside]

theorem Owned.congr (h : s.Owned) (hworkers : t.m_worker_threads = s.m_worker_threads)
    (hthreads : t.threads = s.threads) (howner : ∀ id, s.owner = .store_handle id → t.owner = .store_handle id) :
    t.Owned := by
  constructor
  · rw [hworkers, hthreads]
    intro id thread hthread hrunning
    obtain ⟨worker, hworker, hid⟩ := h.alive hthread hrunning
    exact ⟨worker, hworker, hid.imp_right fun hnew => ⟨hnew.1, howner id hnew.2⟩⟩
  · rw [hworkers, hthreads]
    exact h.handle
  · rw [Outside, hthreads]
    exact h.outside

-- Whether a handler can halt the pool is whether the handle of its thread is not there.
theorem can_halt_eq_false_iff : s.can_halt (some id) = false ↔ s.Stored id := by
  rw [can_halt, List.all_eq_false, Stored]
  refine exists_congr fun worker => and_congr_right fun _ => ?_
  rw [WorkerThread.own, Option.isSome_some, Bool.true_and]
  cases hthread : worker.thread with
  | none => simp
  | some other => simp [WorkerThread.joinable, hthread]

theorem Owned.stored (h : s.Owned) {thread : Thread} (hthread : s.threads[id]? = some thread)
    (hrunning : thread.stage ≠ .exited) (howner : s.owner ≠ .store_handle id) : s.Stored id := by
  obtain ⟨worker, hworker, hid⟩ := h.alive hthread hrunning
  exact ⟨worker, List.mem_of_getElem? hworker, hid.resolve_right fun hnew => howner hnew.2⟩

theorem get_set_stage (s : WorkerObject) (id : Nat) (stage : ThreadStage) (other : Nat) :
    (s.set_stage id stage).threads[other]? =
      s.threads[other]?.map fun thread => if id = other then { thread with stage } else thread :=
  List.getElem?_modify ..

theorem mem_set_stage {stage : ThreadStage} {thread : Thread}
    (hmem : thread ∈ (s.set_stage id stage).threads) : thread ∈ s.threads ∨ thread.stage = stage := by
  obtain ⟨other, hother⟩ := List.mem_iff_getElem?.mp hmem
  rw [get_set_stage] at hother
  obtain ⟨before, hbefore, rfl⟩ := Option.map_eq_some_iff.mp hother
  split
  · exact .inr rfl
  · exact .inl (List.mem_of_getElem? hbefore)

-- A thread goes on with what is its own.
theorem Owned.set_stage (h : s.Owned) {thread : Thread} (hthread : s.threads[id]? = some thread)
    (hrunning : thread.stage ≠ .exited) (stage : ThreadStage) (hstage : stage ≠ .halting) :
    (s.set_stage id stage).Owned := by
  constructor
  · intro other after hafter hrunning'
    rw [get_set_stage] at hafter
    obtain ⟨before, hbefore, rfl⟩ := Option.map_eq_some_iff.mp hafter
    by_cases hid : id = other
    · subst hid
      obtain rfl := Option.some.inj (hthread.symm.trans hbefore)
      obtain ⟨worker, hworker⟩ := h.alive hthread hrunning
      rw [if_pos rfl]
      exact ⟨worker, hworker⟩
    · rw [if_neg hid] at hrunning' ⊢
      exact h.alive hbefore hrunning'
  · intro i other worker hworker hother
    obtain ⟨before, hbefore, hi⟩ := h.handle hworker hother
    refine ⟨if id = other then { before with stage } else before, ?_, ?_⟩
    · rw [get_set_stage, hbefore, Option.map_some]
    · split <;> exact hi
  · intro after hafter
    rcases mem_set_stage hafter with hbefore | heq
    · exact h.outside after hbefore
    · rwa [heq]

theorem get_concat {α : Type} {l : List α} {a b : α} {i : Nat} (h : (l ++ [a])[i]? = some b) :
    l[i]? = some b ∨ i = l.length ∧ a = b := by
  rw [List.getElem?_append] at h
  split at h
  · exact .inl h
  · obtain ⟨hi, rfl⟩ := List.getElem?_eq_some_iff.mp h
    rw [List.length_singleton] at hi
    exact .inr ⟨by omega, by simp⟩

theorem get_concat_of_get {α : Type} {l : List α} {b : α} {i : Nat} (h : l[i]? = some b) (a : α) :
    (l ++ [a])[i]? = some b := by
  rw [List.getElem?_append_left (List.getElem?_eq_some_iff.mp h).1, h]

-- The new element has no thread yet.
theorem Owned.emplace (h : s.Owned) (howner : s.owner = .emplace) : s.emplace.Owned := by
  constructor
  · intro id thread hthread hrunning
    obtain ⟨worker, hworker, hid⟩ := h.alive hthread hrunning
    have hstored := hid.resolve_right fun hnew => absurd (howner.symm.trans hnew.2) (by simp)
    exact ⟨worker, get_concat_of_get hworker _, .inl hstored⟩
  · intro i id worker hworker hid
    rcases get_concat hworker with hworker | ⟨rfl, rfl⟩
    · exact h.handle hworker hid
    · exact absurd hid (by simp [WorkerThread.ctor])
  · exact h.outside

-- The new thread finds its element, which has no handle.
theorem Owned.start_thread (h : s.Owned) (howner : s.owner = .start_thread)
    (hlast : s.m_worker_threads.getLast? = some .ctor) : s.start_thread.Owned := by
  constructor
  · intro id thread hthread hrunning
    rcases get_concat hthread with hthread | ⟨rfl, rfl⟩
    · obtain ⟨worker, hworker, hid⟩ := h.alive hthread hrunning
      have hstored := hid.resolve_right fun hnew => absurd (howner.symm.trans hnew.2) (by simp)
      exact ⟨worker, hworker, .inl hstored⟩
    · rw [List.getLast?_eq_getElem?] at hlast
      exact ⟨_, hlast, .inr ⟨rfl, rfl⟩⟩
  · intro i id worker hworker hid
    obtain ⟨thread, hthread, hi⟩ := h.handle hworker hid
    exact ⟨thread, get_concat_of_get hthread _, hi⟩
  · intro thread hmem
    rcases List.mem_append.mp hmem with hmem | hmem
    · exact h.outside thread hmem
    · obtain rfl := List.mem_singleton.mp hmem
      simp

-- The thread and its element have each other.
theorem Owned.store_handle (h : s.Owned) (howner : s.owner = .store_handle id)
    (hlast : s.m_worker_threads.getLast? = some .ctor) {own : Thread} (hown : s.threads[id]? = some own)
    (hplace : own.worker = s.m_worker_threads.length - 1) : (s.store_handle id).Owned := by
  rw [List.getLast?_eq_getElem?] at hlast
  have hget (i : Nat) : (s.store_handle id).m_worker_threads[i]? = s.m_worker_threads[i]?.map fun worker =>
      if s.m_worker_threads.length - 1 = i then { worker with thread := some id } else worker :=
    List.getElem?_modify ..
  constructor
  · intro other thread hthread hrunning
    obtain ⟨worker, hworker, hid⟩ := h.alive hthread hrunning
    have hnew : worker.thread = none ∧ s.owner = .store_handle other → other = id := fun hnew =>
      OwnerStage.store_handle.inj (hnew.2.symm.trans howner)
    rw [hget, hworker, Option.map_some]
    by_cases hi : s.m_worker_threads.length - 1 = thread.worker
    · rw [← hi, hlast] at hworker
      obtain rfl := Option.some.inj hworker
      have hother := hnew (hid.resolve_left (by simp [WorkerThread.ctor]))
      exact ⟨_, rfl, .inl (by rw [if_pos hi, hother])⟩
    · refine ⟨_, rfl, .inl ?_⟩
      rw [if_neg hi]
      refine hid.resolve_right fun hboth => hi ?_
      rw [hnew hboth] at hthread
      rw [← hplace, Option.some.inj (hown.symm.trans hthread)]
  · intro i other worker hworker hother
    rw [hget] at hworker
    obtain ⟨before, hbefore, rfl⟩ := Option.map_eq_some_iff.mp hworker
    split at hother
    · rename_i hi
      obtain rfl := Option.some.inj hother
      exact ⟨own, hown, hplace.trans hi⟩
    · exact h.handle hbefore hother
  · exact h.outside

-- A handle that a join would not wait for is that of a thread at its end, or of none.
theorem exited_of_joins {worker : WorkerThread} (hjoins : s.joins worker = true)
    (hid : worker.thread = some id) {thread : Thread} (hthread : s.threads[id]? = some thread) :
    thread.stage = .exited := by
  simpa [joins, hid, hthread] using hjoins

theorem get_tell (s : WorkerObject) (i j : Nat) : (s.tell i).m_worker_threads[j]? =
    s.m_worker_threads[j]?.map fun worker =>
      if i = j then if worker.joinable then { worker with should_halt := true } else worker
      else worker :=
  List.getElem?_modify ..

theorem get_join (s : WorkerObject) (i j : Nat) : (s.join i).m_worker_threads[j]? =
    s.m_worker_threads[j]?.map fun worker =>
      if i = j then if worker.joinable then ⟨none, true⟩ else worker else worker :=
  List.getElem?_modify ..

-- The handles stay as they are.
theorem Owned.tell (h : s.Owned) (i : Nat) : (s.tell i).Owned := by
  have hget (j : Nat) : (s.tell i).m_worker_threads[j]?.map WorkerThread.thread =
      s.m_worker_threads[j]?.map WorkerThread.thread := by
    rw [get_tell, Option.map_map]
    congr 1
    funext worker
    simp only [Function.comp_apply]
    split
    · split <;> rfl
    · rfl
  constructor
  · intro id thread hthread hrunning
    obtain ⟨worker, hworker, hid⟩ := h.alive hthread hrunning
    have hmap := hget thread.worker
    rw [hworker, Option.map_some] at hmap
    obtain ⟨after, hafter, hsame⟩ := Option.map_eq_some_iff.mp hmap
    exact ⟨after, hafter, hsame ▸ hid⟩
  · intro j id worker hworker hid
    have hmap := hget j
    rw [hworker, Option.map_some, hid] at hmap
    obtain ⟨before, hbefore, hid⟩ := Option.map_eq_some_iff.mp hmap.symm
    exact h.handle hbefore hid
  · exact h.outside

-- One handle is left empty, that of a thread at its end.
theorem Owned.join (h : s.Owned) {i : Nat} {worker : WorkerThread}
    (hworker : s.m_worker_threads[i]? = some worker) (hjoins : s.joins worker = true) :
    (s.join i).Owned := by
  constructor
  · intro id thread hthread hrunning
    obtain ⟨other, hother, hid⟩ := h.alive hthread hrunning
    refine ⟨_, by rw [get_join, hother, Option.map_some], ?_⟩
    split
    · rename_i hi
      rw [hi, hother] at hworker
      obtain rfl := Option.some.inj hworker
      split
      · refine .inr ⟨rfl, ?_⟩
        rcases hid with hid | hnew
        · exact absurd (exited_of_joins hjoins hid hthread) hrunning
        · exact hnew.2
      · exact hid
    · exact hid
  · intro j id after hafter hid
    rw [get_join] at hafter
    obtain ⟨before, hbefore, rfl⟩ := Option.map_eq_some_iff.mp hafter
    have hthread : before.thread = some id := by
      split at hid
      · split at hid
        · exact absurd hid (by simp)
        · exact hid
      · exact hid
    exact h.handle hbefore hthread
  · exact h.outside

theorem Owned.clear (h : s.Owned) (hjoins : s.m_worker_threads.all s.joins = true)
    (howner : ∀ id, s.owner ≠ .store_handle id) :
    ({ s with m_worker_threads := [] } : WorkerObject).Owned := by
  constructor
  · intro id thread hthread hrunning
    obtain ⟨worker, hworker, hid⟩ := h.alive hthread hrunning
    have hjoin := List.all_eq_true.mp hjoins worker (List.mem_of_getElem? hworker)
    have hstored := hid.resolve_right fun hnew => howner id hnew.2
    exact absurd (exited_of_joins hjoin hstored hthread) hrunning
  · simp
  · exact h.outside

-- What the calls have done so far, by the statement that they are at.
def Phased (s : WorkerObject) : Prop :=
  match s.owner with
  | .idle | .launch | .emplace | .launched _ | .can_halt | .reset =>
      s.halt_thread = .absent ∧ s.make_work_thread = .absent
  | .start_thread =>
      s.halt_thread = .absent ∧ s.make_work_thread = .absent ∧
        s.m_worker_threads.getLast? = some .ctor
  | .store_handle id =>
      s.halt_thread = .absent ∧ s.make_work_thread = .absent ∧
        s.m_worker_threads.getLast? = some .ctor ∧
        s.threads[id]?.map Thread.worker = some (s.m_worker_threads.length - 1)
  | .start_halt_thread =>
      s.halt_thread = .absent ∧ s.make_work_thread = .absent ∧ s.m_thread_waiter = false
  | .start_make_work_thread =>
      s.halt_thread ≠ .absent ∧ s.make_work_thread = .absent ∧ s.m_thread_waiter = false
  | .join_halt_thread =>
      s.halt_thread ≠ .absent ∧ s.make_work_thread ≠ .absent ∧ s.m_thread_waiter = false
  | .join_make_work_thread =>
      s.halt_thread = .absent ∧ s.make_work_thread ≠ .absent ∧ s.m_thread_waiter = false ∧
        s.m_worker_threads = []
  | .halted canhalt =>
      s.halt_thread = .absent ∧ s.make_work_thread = .absent ∧ s.m_thread_waiter = false ∧
        s.m_worker_threads = [] ∧ canhalt = true

-- What its two passes have done.
def Told (s : WorkerObject) : Prop :=
  match s.halt_thread with
  | .absent => True
  | .tell i => ∀ j < i, ∀ worker, s.m_worker_threads[j]? = some worker →
      worker.joinable = true → worker.should_halt = true
  | .wait i => (∀ worker ∈ s.m_worker_threads, worker.joinable = true → worker.should_halt = true) ∧
      ∀ j < i, ∀ worker, s.m_worker_threads[j]? = some worker → worker.joinable = false
  | .clear => ∀ worker ∈ s.m_worker_threads, worker.joinable = false
  | .exited => s.m_worker_threads = []

theorem Told.congr (h : s.Told) (hhalt : t.halt_thread = s.halt_thread)
    (hworkers : t.m_worker_threads = s.m_worker_threads) : t.Told := by
  rw [Told, hhalt, hworkers]
  exact h

theorem told_of_absent (h : s.halt_thread = .absent) : s.Told := by
  rw [Told, h]
  trivial

theorem Told.tell {i : Nat} (h : s.Told) (hhalt : s.halt_thread = .tell i) :
    ({ s.tell i with halt_thread := .tell (i + 1) } : WorkerObject).Told := by
  rw [Told, hhalt] at h
  intro j hj after hafter hjoinable
  change (s.tell i).m_worker_threads[j]? = some after at hafter
  rw [get_tell] at hafter
  obtain ⟨before, hbefore, rfl⟩ := Option.map_eq_some_iff.mp hafter
  by_cases hi : i = j
  · rw [if_pos hi] at hjoinable ⊢
    split at hjoinable
    · rw [if_pos ‹_›]
    · exact absurd hjoinable ‹_›
  · rw [if_neg hi] at hjoinable ⊢
    exact h j (by omega) before hbefore hjoinable

theorem Told.told {i : Nat} (h : s.Told) (hhalt : s.halt_thread = .tell i)
    (hi : s.m_worker_threads.length ≤ i) :
    ({ s with halt_thread := .wait 0 } : WorkerObject).Told := by
  rw [Told, hhalt] at h
  refine ⟨fun worker hmem => ?_, fun j hj => absurd hj (by omega)⟩
  obtain ⟨j, hj⟩ := List.mem_iff_getElem?.mp hmem
  exact h j (Nat.lt_of_lt_of_le (List.getElem?_eq_some_iff.mp hj).1 hi) worker hj

theorem Told.join {i : Nat} (h : s.Told) (hhalt : s.halt_thread = .wait i) :
    ({ s.join i with halt_thread := .wait (i + 1) } : WorkerObject).Told := by
  rw [Told, hhalt] at h
  obtain ⟨htold, hjoined⟩ := h
  constructor
  · intro after hmem hjoinable
    obtain ⟨j, hj⟩ := List.mem_iff_getElem?.mp hmem
    change (s.join i).m_worker_threads[j]? = some after at hj
    rw [get_join] at hj
    obtain ⟨before, hbefore, rfl⟩ := Option.map_eq_some_iff.mp hj
    split
    · split
      · rfl
      · rename_i hi hempty
        rw [if_pos hi, if_neg hempty] at hjoinable
        exact absurd hjoinable hempty
    · rename_i hi
      rw [if_neg hi] at hjoinable
      exact htold before (List.mem_of_getElem? hbefore) hjoinable
  · intro j hj after hafter
    change (s.join i).m_worker_threads[j]? = some after at hafter
    rw [get_join] at hafter
    obtain ⟨before, hbefore, rfl⟩ := Option.map_eq_some_iff.mp hafter
    split
    · split
      · rfl
      · exact Bool.eq_false_iff.mpr ‹_›
    · exact hjoined j (by omega) before hbefore

theorem Told.joined {i : Nat} (h : s.Told) (hhalt : s.halt_thread = .wait i)
    (hi : s.m_worker_threads.length ≤ i) :
    ({ s with halt_thread := .clear } : WorkerObject).Told := by
  rw [Told, hhalt] at h
  intro worker hmem
  obtain ⟨j, hj⟩ := List.mem_iff_getElem?.mp hmem
  exact h.2 j (Nat.lt_of_lt_of_le (List.getElem?_eq_some_iff.mp hj).1 hi) worker hj

theorem Told.step (h : s.Told) (hphased : s.Phased) (hstep : s.step e = some t) : t.Told := by
  cases step_steps hstep with
  | emplace howner =>
      rw [Phased, howner] at hphased
      exact told_of_absent hphased.1
  | store_handle howner =>
      rw [Phased, howner] at hphased
      exact told_of_absent hphased.1
  | start_halt_thread => exact fun j hj => absurd hj (by omega)
  | join_halt_thread => exact told_of_absent rfl
  | tell hhalt => exact h.tell hhalt
  | told hhalt hi => exact h.told hhalt hi
  | join hhalt => exact h.join hhalt
  | joined hhalt hi => exact h.joined hhalt hi
  | clear => exact rfl
  | _ => exact h.congr rfl rfl

theorem Phased.congr (h : s.Phased) (howner : t.owner = s.owner) (hhalt : t.halt_thread = s.halt_thread)
    (hmake : t.make_work_thread = s.make_work_thread) (hwaiter : t.m_thread_waiter = s.m_thread_waiter)
    (hworkers : t.m_worker_threads = s.m_worker_threads)
    (hplaces : ∀ id : Nat, t.threads[id]?.map Thread.worker = s.threads[id]?.map Thread.worker) : t.Phased := by
  simp only [Phased, howner, hhalt, hmake, hwaiter, hworkers, hplaces]
  exact h

theorem place_set_stage (s : WorkerObject) (id : Nat) (stage : ThreadStage) (other : Nat) :
    (s.set_stage id stage).threads[other]?.map Thread.worker = s.threads[other]?.map Thread.worker := by
  rw [get_set_stage, Option.map_map]
  congr 1
  funext thread
  simp only [Function.comp_apply]
  split <;> rfl

theorem Phased.set_stage (h : s.Phased) (id : Nat) (stage : ThreadStage) : (s.set_stage id stage).Phased :=
  h.congr rfl rfl rfl rfl rfl (s.place_set_stage id stage)

-- A call of launch() or halt() begins without the two threads.
theorem Phased.absent (h : s.Phased) (hfree : s.owner.free = true) :
    s.halt_thread = .absent ∧ s.make_work_thread = .absent := by
  cases howner : s.owner <;> simp_all [Phased, OwnerStage.free]

-- While a handle is still to be stored the thread that halts is not there.
theorem Phased.not_store (h : s.Phased) (hhalt : s.halt_thread ≠ .absent) (id : Nat) :
    s.owner ≠ .store_handle id := by
  intro howner
  rw [Phased, howner] at h
  exact hhalt h.1

-- The thread that halts the others goes on, whatever it does to the array.
theorem Phased.halting (h : s.Phased) (hbefore : s.halt_thread ≠ .absent) {m_worker_threads : List WorkerThread}
    {halt_thread : HaltThread} (hafter : halt_thread ≠ .absent) :
    ({ s with m_worker_threads, halt_thread } : WorkerObject).Phased := by
  cases howner : s.owner <;> simp_all [Phased]

theorem Phased.making (h : s.Phased) (hbefore : s.make_work_thread ≠ .absent)
    {make_work_thread : MakeWorkThread} (hafter : make_work_thread ≠ .absent) :
    ({ s with make_work_thread } : WorkerObject).Phased := by
  cases howner : s.owner <;> simp_all [Phased]

theorem Phased.step (h : s.Phased) (htold : s.Told) (hstep : s.step e = some t) : t.Phased := by
  cases step_steps hstep with
  | @call call hfree =>
      cases call with
      | launch => exact h.absent hfree
      | halt => exact h.absent hfree
  | launch howner =>
      rw [Phased, howner] at h
      exact h
  | full howner =>
      rw [Phased, howner] at h
      exact h
  | emplace howner =>
      rw [Phased, howner] at h
      exact ⟨h.1, h.2, List.getLast?_concat ..⟩
  | launched howner =>
      rw [Phased, howner] at h
      exact h
  | started howner hworker hjoinable =>
      rw [Phased, howner] at h
      exact ⟨h.1, h.2.1⟩
  | start_thread howner =>
      rw [Phased, howner] at h
      refine ⟨h.1, h.2.1, h.2.2, ?_⟩
      change (s.threads ++ [_])[s.threads.length]?.map Thread.worker = _
      rw [List.getElem?_concat_length]
      rfl
  | store_handle howner =>
      rw [Phased, howner] at h
      exact ⟨h.1, h.2.1⟩
  | can_halt howner =>
      rw [Phased, howner] at h
      exact h
  | reset howner =>
      rw [Phased, howner] at h
      exact ⟨h.1, h.2, rfl⟩
  | start_halt_thread howner =>
      rw [Phased, howner] at h
      exact ⟨by simp, h.2.1, h.2.2⟩
  | start_make_work_thread howner =>
      rw [Phased, howner] at h
      exact ⟨h.1, by simp, h.2.2⟩
  | join_halt_thread howner hexited =>
      rw [Phased, howner] at h
      rw [Told, hexited] at htold
      exact ⟨rfl, h.2.1, h.2.2, htold⟩
  | join_make_work_thread howner =>
      rw [Phased, howner] at h
      exact ⟨h.1, rfl, h.2.2.1, h.2.2.2, rfl⟩
  | test => exact h.set_stage _ _
  | back => exact h.set_stage _ _
  | halts => exact h.set_stage _ _
  | refuses => exact h
  | tell hhalt => exact h.halting (by simp [hhalt]) (by simp)
  | told hhalt => exact h.halting (by simp [hhalt]) (by simp)
  | join hhalt => exact h.halting (by simp [hhalt]) (by simp)
  | joined hhalt => exact h.halting (by simp [hhalt]) (by simp)
  | clear hhalt => exact h.halting (by simp [hhalt]) (by simp)
  | make_work_test hmake =>
      refine h.making (by simp [hmake]) ?_
      split <;> simp
  | make_work hmake => exact h.making (by simp [hmake]) (by simp)

theorem Owned.step (h : s.Owned) (hphased : s.Phased) (hguarded : s.Guarded e)
    (hstep : s.step e = some t) : t.Owned := by
  cases step_steps hstep with
  | call hfree =>
      refine h.congr rfl rfl fun id howner => ?_
      rw [howner] at hfree
      exact absurd hfree (by simp [OwnerStage.free])
  | emplace howner => exact h.emplace howner
  | start_thread howner =>
      rw [Phased, howner] at hphased
      exact h.start_thread howner hphased.2.2
  | store_handle howner =>
      rw [Phased, howner] at hphased
      obtain ⟨-, -, hlast, hplace⟩ := hphased
      obtain ⟨own, hown, hplace⟩ := Option.map_eq_some_iff.mp hplace
      exact h.store_handle howner hlast hown hplace
  | test hthread hworker =>
      refine h.set_stage hthread (by simp) _ ?_
      split <;> simp
  | back hthread => exact h.set_stage hthread (by simp) .test (by simp)
  | halts hthread hcan =>
      rw [can_halt_eq_false_iff.mpr (h.stored hthread (by simp) hguarded)] at hcan
      exact absurd hcan (by simp)
  | refuses => exact h
  | tell => exact (h.tell _).congr rfl rfl fun _ => id
  | told => exact h.congr rfl rfl fun _ => id
  | join _ hworker hjoins => exact (h.join hworker hjoins).congr rfl rfl fun _ => id
  | joined => exact h.congr rfl rfl fun _ => id
  | clear hhalt hjoins =>
      have howner := hphased.not_store (by simp [hhalt])
      exact (h.clear hjoins howner).congr rfl rfl fun _ => id
  | make_work_test => exact h.congr rfl rfl fun _ => id
  | make_work => exact h.congr rfl rfl fun _ => id
  | launch howner | full howner | launched howner | started howner | can_halt howner | reset howner
  | start_halt_thread howner | start_make_work_thread howner | join_halt_thread howner
  | join_make_work_thread howner =>
      exact h.congr rfl rfl fun id hstore => absurd (howner.symm.trans hstore) (by simp)

-- All of this holds in every state of a run in which no handler halts on a thread too early.
structure Sound (s : WorkerObject) : Prop where
  owned : s.Owned
  phased : s.Phased
  told : s.Told

theorem Sound.step (h : s.Sound) (hguarded : s.Guarded e) (hstep : s.step e = some t) : t.Sound :=
  ⟨h.owned.step h.phased hguarded hstep, h.phased.step h.told hstep, h.told.step h.phased hstep⟩

theorem start_sound (capacity : Nat) : (start capacity).Sound :=
  ⟨start_owned capacity, ⟨rfl, rfl⟩, trivial⟩

-- Until its handle is stored no element has it.
theorem Sound.not_stored (h : s.Sound) (howner : s.owner = .store_handle id) : ¬s.Stored id := by
  rintro ⟨worker, hmem, hid⟩
  have hphased := h.phased
  rw [Phased, howner] at hphased
  obtain ⟨-, -, hlast, hplace⟩ := hphased
  obtain ⟨i, hi⟩ := List.mem_iff_getElem?.mp hmem
  obtain ⟨thread, hthread, hworker⟩ := h.owned.handle hi hid
  rw [hthread, Option.map_some, hworker] at hplace
  rw [Option.some.inj hplace, ← List.getLast?_eq_getElem?, hlast] at hi
  rw [← Option.some.inj hi] at hid
  exact absurd hid (by simp [WorkerThread.ctor])

-- A call that comes too early leaves the thread in a halt() that waits for it.
theorem Sound.not_outside (h : s.Sound) (hguarded : ¬s.Guarded e) (hstep : s.step e = some t) :
    ¬t.Outside := by
  cases step_steps hstep with
  | @halts id i hthread hcan =>
      intro hout
      have hget := s.get_set_stage id .halting id
      rw [hthread, Option.map_some, if_pos rfl] at hget
      exact hout _ (List.mem_of_getElem? hget) rfl
  | refuses hthread hcan =>
      exact absurd (can_halt_eq_false_iff.mp hcan) (h.not_stored (not_not.mp hguarded))
  | _ => exact absurd trivial hguarded

theorem Sound.halted (h : s.Sound) {canhalt : Bool} (howner : s.owner = .halted canhalt) :
    canhalt = true ∧ s.m_worker_threads = [] ∧ s.m_thread_waiter = false ∧ s.running false = false ∧
      ∀ thread ∈ s.threads, thread.stage = .exited := by
  have hphased := h.phased
  rw [Phased, howner] at hphased
  obtain ⟨-, -, hwaiter, hworkers, hcanhalt⟩ := hphased
  refine ⟨hcanhalt, hworkers, hwaiter, by simp [running, hworkers], fun thread hmem => ?_⟩
  by_contra hrunning
  obtain ⟨id, hid⟩ := List.mem_iff_getElem?.mp hmem
  obtain ⟨worker, hworker, -⟩ := h.owned.alive hid hrunning
  simp [hworkers] at hworker

section Runs

variable {capacity : Nat} {trace : List PoolEvent}

theorem sound_of_run (hrun : Run step Guarded (start capacity) trace s) : s.Sound :=
  hrun.invariant (start_sound capacity) fun h hguarded hstep => h.step hguarded hstep

-- Whatever the io_service does with the threads: none of them gets into a halt() of its own pool
-- exactly as long as no handler calls halt() on a thread whose handle launch() has not stored. Then a
-- thread that runs has its element in the array, with its handle as soon as that is stored; from
-- there on a handler that calls halt() gets false and nothing else happens; and a call of halt() by
-- the other thread is back with true, an empty array, no waiter, and none of all the threads that
-- there have been still running.
theorem halt_leaves_no_thread (hrun : Run step Always (start capacity) trace s) :
    (Throughout Outside step (start capacity) trace ↔ Run step Guarded (start capacity) trace s) ∧
      (Run step Guarded (start capacity) trace s →
        (∀ (id : Nat) (thread : Thread), s.threads[id]? = some thread → thread.stage ≠ .exited →
          ∃ worker : WorkerThread, s.m_worker_threads[thread.worker]? = some worker ∧
            (worker.thread = some id ∨ worker.thread = none ∧ s.owner = .store_handle id)) ∧
        (∀ (id i : Nat), s.threads[id]? = some ⟨i, .run⟩ → s.owner ≠ .store_handle id →
          s.can_halt (some id) = false ∧ s.step (.handler_halt id) = some s) ∧
        (∀ canhalt, s.owner = .halted canhalt → canhalt = true ∧ s.m_worker_threads = [] ∧
          s.m_thread_waiter = false ∧ s.running false = false ∧
          ∀ thread ∈ s.threads, thread.stage = .exited)) := by
  refine ⟨hrun.throughout_iff (start_sound capacity) (fun h => h.owned.outside)
    (fun h hguarded hstep => h.step hguarded hstep) (fun h hguarded hstep => h.not_outside hguarded hstep),
    fun hguarded => ?_⟩
  have h := sound_of_run hguarded
  refine ⟨fun id thread => h.owned.alive, fun id i hthread howner => ?_, fun canhalt => h.halted⟩
  have hcan := can_halt_eq_false_iff.mpr (h.owned.stored hthread (by simp) howner)
  refine ⟨hcan, ?_⟩
  simp [WorkerObject.step, handler_halt, hthread, hcan]

-- A pool of one thread, launched and then halted, with the thread in run() and a handler on it that
-- calls halt() in vain.
def launching : List PoolEvent :=
  [.call .launch, .owner, .owner, .owner, .thread 0, .owner, .owner, .handler_halt 0]

def halting : List PoolEvent :=
  [.call .halt, .owner, .owner, .owner, .owner, .halt_thread, .halt_thread, .thread 0, .thread 0,
    .halt_thread, .halt_thread, .halt_thread, .make_work_thread, .owner, .owner]

theorem halt_leaves_no_thread_of_one :
    ∃ s, Run step Guarded (start 1) (launching ++ halting) s ∧
      Throughout Outside step (start 1) (launching ++ halting) ∧ s.m_worker_threads = [] ∧
      s.threads.length = 1 ∧ ∀ thread ∈ s.threads, thread.stage = .exited := by
  have hlast : ((launching ++ halting).foldlM (guarded step Guarded) (start 1)).map
      (fun s => (s.owner, s.threads.length)) = some (.halted true, 1) := by decide
  obtain ⟨s, hs, heq⟩ := Option.map_eq_some_iff.mp hlast
  obtain ⟨howner, hlength⟩ := Prod.mk.inj heq
  have hrun := Run.of_foldlM hs
  obtain ⟨hiff, hsound⟩ := halt_leaves_no_thread hrun.always
  obtain ⟨-, -, hhalted⟩ := hsound hrun
  obtain ⟨-, hworkers, -, -, hexited⟩ := hhalted true howner
  exact ⟨s, hrun, hiff.mpr hrun, hworkers, hlength, hexited⟩

end Runs

end RoboCrisp.Util.WorkerObject
