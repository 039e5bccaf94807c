import RoboCrisp.Util.SArray.Lemmas
import RoboCrisp.Transition.Refinement
import Mathlib.Logic.Function.Basic

namespace RoboCrisp.Util

open RoboCrisp.Transition

-- What is done to some arrays. A constructor makes a new object under the name of an old one,
-- which goes away.
inductive ArrayEvent (ι α : Type)
  | default (i : ι)
  | alloc (i : ι) (capacity : Nat)
  | init (i : ι) (data : List α)
  | copy (i j : ι)
  | move (i j : ι)
  | push (i : ι) (v : α)
  | emplace (i : ι) (v : α)
  | ensure_capacity (i : ι) (reqd_capacity : Nat)
  | clear (i : ι)
  | assign (i j : ι)
  | move_assign (i j : ι)

namespace SArray

variable {ι α : Type} [DecidableEq ι]

abbrev Objects (ι α : Type) := ι → SArray α

open Function (update)

-- The copy of an element is equal to it.
def step (s : Objects ι α) : ArrayEvent ι α → Option (Objects ι α)
  | .default i => some (update s i empty)
  | .alloc i capacity => some (update s i (alloc capacity))
  | .init i data => do return update s i (← (alloc data.length).pushAll data)
  | .copy i j => do return update s i (← (s j).copy some)
  | .move i j => some (update (update s j (s j).movedFrom) i (s j))
  | .push i v => do return update s i (← (s i).push v)
  | .emplace i v => do return update s i (← (s i).push v)
  | .ensure_capacity i reqd_capacity => some (update s i ((s i).ensure_capacity reqd_capacity))
  | .clear i => some (update s i (s i).clear)
  | .assign i j =>
      if i = j then some (update s i (s i).assignSelf)
      else do return update s i (← (s i).assign some (s j))
  | .move_assign i j =>
      if i = j then some (update s i (s i).moveSelf)
      else some (update (update s j (s j).movedFrom) i (s j))

-- The same with lists. A move leaves an empty one behind, unless it goes back to where it came
-- from.
def listStep (lists : ι → List α) : ArrayEvent ι α → ι → List α
  | .default i => update lists i []
  | .alloc i _ => update lists i []
  | .init i data => update lists i data
  | .copy i j => update lists i (lists j)
  | .move i j => update (update lists j []) i (lists j)
  | .push i v => update lists i (lists i ++ [v])
  | .emplace i v => update lists i (lists i ++ [v])
  | .ensure_capacity _ _ => lists
  | .clear i => update lists i []
  | .assign i j => update lists i (lists j)
  | .move_assign i j => update (update lists j []) i (lists j)

-- The array is in order, and its contents are those of the list.
structure Denotes (array : SArray α) (elements : List α) : Prop where
  size_le : array.size ≤ array.capacity
  data_ne : 0 < array.capacity → array.data ≠ none
  elems_eq : array.elems = some elements

def Follow (s : Objects ι α) (lists : ι → List α) : Prop := ∀ i, (s i).Denotes (lists i)

-- The invariant.
def AllHold (s : Objects ι α) (lists : ι → List α) : Prop := ∀ i, (s i).Holds (lists i)

-- Nothing is moved out of an array that has memory, and no array that has elements is assigned
-- to itself.
def Keeps (s : Objects ι α) : ArrayEvent ι α → Prop
  | .move i j => i ≠ j → (s j).capacity = 0
  | .assign i j => i = j → (s i).size = 0
  | .move_assign _ j => (s j).capacity = 0
  | _ => True

instance (s : Objects ι α) (e : ArrayEvent ι α) : Decidable (Keeps s e) := by
  unfold Keeps
  split <;> infer_instance

section Operations

variable {array target : SArray α} {elements old : List α}

theorem Holds.denotes (h : array.Holds elements) : array.Denotes elements where
  size_le := h.size_le
  data_ne hcap hdata := by
    have hzero := h.capacity_of_data hdata
    omega
  elems_eq := h.elems

theorem holds_init (data : List α) :
    ∃ array, (alloc data.length : SArray α).pushAll data = some array ∧ array.Holds data := by
  simpa using (holds_alloc data.length).pushAll data

theorem Holds.copy_some (h : array.Holds elements) :
    ∃ array', array.copy some = some array' ∧ array'.Holds elements :=
  h.exists_copy (List.forall₂_same.mpr fun _ _ => rfl)

theorem Holds.assign_some (h : array.Holds elements) (htarget : target.Holds old) :
    ∃ array', target.assign some array = some array' ∧ array'.Holds elements :=
  h.exists_assign htarget (List.forall₂_same.mpr fun _ _ => rfl)

theorem Holds.assignSelf (h : array.Holds elements) : array.assignSelf.Holds [] :=
  (h.clear.ensure_capacity array.capacity).1

theorem Holds.eq_nil (h : array.Holds elements) (hsize : array.size = 0) : elements = [] := by
  apply List.length_eq_zero_iff.mp
  rw [← h.size_eq, hsize]

theorem capacity_clear (array : SArray α) : array.clear.capacity = array.capacity := by
  unfold SArray.clear
  split <;> rfl

theorem Holds.moveSelf (h : array.Holds elements) (hcap : array.capacity = 0) :
    array.moveSelf.Holds [] := by
  apply h.clear.movedFrom
  rw [capacity_clear, hcap]

-- An array that has lost its memory but not its capacity is out of order.
theorem not_denotes_movedFrom (hcap : array.capacity ≠ 0) : ¬array.movedFrom.Denotes elements :=
  fun h => h.data_ne (Nat.pos_of_ne_zero hcap) rfl

theorem not_denotes_moveSelf (hcap : array.capacity ≠ 0) : ¬array.moveSelf.Denotes elements := by
  rw [← capacity_clear] at hcap
  exact not_denotes_movedFrom hcap

end Operations

variable {s u : Objects ι α} {lists : ι → List α} {e : ArrayEvent ι α} {trace : List (ArrayEvent ι α)}

theorem forall_update {P : SArray α → List α → Prop} {i : ι} {array : SArray α} {elements : List α}
    (h : ∀ k, P (s k) (lists k)) (hi : P array elements) (k : ι) :
    P (update s i array k) (update lists i elements k) := by
  by_cases hk : k = i
  · subst hk
    simpa using hi
  · simpa [hk] using h k

-- Steps that are allowed can be taken, and go with those on the lists.
theorem Keeps.step (h : Keeps s e) (hinv : AllHold s lists) :
    ∃ u, SArray.step s e = some u ∧ AllHold u (listStep lists e) := by
  cases e with
  | default i => exact ⟨_, rfl, forall_update hinv holds_empty⟩
  | alloc i capacity => exact ⟨_, rfl, forall_update hinv (holds_alloc capacity)⟩
  | init i data =>
      obtain ⟨array, hinit, hholds⟩ := holds_init data
      exact ⟨update s i array, by simp [SArray.step, hinit], forall_update hinv hholds⟩
  | copy i j =>
      obtain ⟨array, hcopy, hholds⟩ := (hinv j).copy_some
      exact ⟨update s i array, by simp [SArray.step, hcopy], forall_update hinv hholds⟩
  | move i j =>
      refine ⟨_, rfl, ?_⟩
      by_cases hij : i = j
      · subst hij
        simpa [listStep] using hinv
      · exact forall_update (forall_update hinv ((hinv j).movedFrom (h hij))) (hinv j)
  | push i v =>
      obtain ⟨array, hpush, hholds⟩ := (hinv i).push v
      exact ⟨update s i array, by simp [SArray.step, hpush], forall_update hinv hholds⟩
  | emplace i v =>
      obtain ⟨array, hpush, hholds⟩ := (hinv i).push v
      exact ⟨update s i array, by simp [SArray.step, hpush], forall_update hinv hholds⟩
  | ensure_capacity i reqd_capacity =>
      refine ⟨_, rfl, fun k => ?_⟩
      have hgrown := ((hinv i).ensure_capacity reqd_capacity).1
      simpa [listStep] using forall_update (i := i) hinv hgrown k
  | clear i => exact ⟨_, rfl, forall_update hinv (hinv i).clear⟩
  | assign i j =>
      by_cases hij : i = j
      · subst hij
        refine ⟨_, if_pos rfl, forall_update hinv ?_⟩
        rw [(hinv i).eq_nil (h rfl)]
        exact (hinv i).assignSelf
      · obtain ⟨array, hassign, hholds⟩ := (hinv j).assign_some (hinv i)
        exact ⟨update s i array, by simp [SArray.step, hij, hassign], forall_update hinv hholds⟩
  | move_assign i j =>
      by_cases hij : i = j
      · subst hij
        refine ⟨_, if_pos rfl, fun k => ?_⟩
        have hnil : lists i = [] := by
          have hsize := (hinv i).size_le
          exact (hinv i).eq_nil (by simp only [Keeps] at h; omega)
        simpa [listStep, hnil] using forall_update (i := i) hinv ((hinv i).moveSelf h) k
      · exact ⟨_, if_neg hij, forall_update (forall_update hinv ((hinv j).movedFrom h)) (hinv j)⟩

-- And the others lead to an array that is out of order, or has lost its contents.
theorem Keeps.of_denotes (hinv : AllHold s lists) (hstep : SArray.step s e = some u)
    (hu : Follow u (listStep lists e)) : Keeps s e := by
  cases e with
  | move i j =>
      intro hij
      obtain rfl := Option.some.inj hstep
      by_contra hcap
      have hj := hu j
      rw [Function.update_of_ne (Ne.symm hij), Function.update_self] at hj
      exact not_denotes_movedFrom hcap hj
  | assign i j =>
      rintro rfl
      obtain rfl := Option.some.inj ((if_pos rfl).symm.trans hstep)
      have helems := (hu i).elems_eq
      simp only [Function.update_self, (hinv i).assignSelf.elems, listStep] at helems
      rw [(hinv i).size_eq, ← Option.some.inj helems]
      rfl
  | move_assign i j =>
      by_contra hcap
      have hj := hu j
      by_cases hij : i = j
      · subst hij
        obtain rfl := Option.some.inj ((if_pos rfl).symm.trans hstep)
        rw [Function.update_self] at hj
        exact not_denotes_moveSelf hcap hj
      · obtain rfl := Option.some.inj ((if_neg hij).symm.trans hstep)
        rw [Function.update_of_ne (Ne.symm hij), Function.update_self] at hj
        exact not_denotes_movedFrom hcap hj
  | _ => trivial

-- From the default constructor on, any number of arrays refine lists exactly if every step of
-- the run keeps them.
theorem refines_iff (trace : List (ArrayEvent ι α)) :
    Refines step listStep Follow (fun _ => empty) (fun _ => []) trace ↔
      Meets step Keeps (fun _ => empty) trace := by
  have hstart : AllHold (fun _ : ι => (empty : SArray α)) fun _ => [] := fun _ => holds_empty
  refine refines_iff_meets hstart (fun hinv i => (hinv i).denotes) ?_ ?_
  · exact fun hinv hkeeps => hkeeps.step hinv
  · exact fun hinv hnot hstep hu => hnot (Keeps.of_denotes hinv hstep hu)

-- Assigned to itself, an array clears what it is about to copy.
theorem not_refines_assign_self :
    ¬Refines step listStep Follow (fun _ : Unit => empty) (fun _ => [])
      [.push () 7, .assign () ()] := by
  intro h
  have hrun : Run step Always (fun _ : Unit => empty) [.push () 7, .assign () ()] _ :=
    .cons trivial rfl (.cons trivial rfl .start)
  obtain ⟨s, hown, hfollow⟩ := h [.push () 7, .assign () ()] List.prefix_rfl
  obtain rfl := hrun.unique hown
  exact absurd (hfollow ()).elems_eq (by decide)

end SArray

end RoboCrisp.Util
