import RoboCrisp.Util.SArray
import Mathlib.Data.List.Forall2

namespace RoboCrisp.Util.SArray

variable {α : Type} {array : SArray α} {elements : List α} {v : α}

theorem holds_empty : (empty : SArray α).Holds [] := ⟨rfl, .inl ⟨rfl, rfl, rfl⟩⟩

theorem holds_alloc (s : Nat) : (alloc s : SArray α).Holds [] := by
  refine ⟨rfl, ?_⟩
  by_cases h : s > 0
  · exact .inr ⟨s, by simp [alloc, h], by simp [alloc]⟩
  · exact .inl ⟨by simp [alloc, h], by simp [alloc]; omega, rfl⟩

theorem map_set_of_eq {β : Type} {f : α → β} {n : Nat} (hn : n < elements.length)
    (h : f v = f elements[n]) : (elements.set n v).map f = elements.map f := by
  refine List.ext_getElem (by simp) fun i hi hi' => ?_
  rw [List.getElem_map, List.getElem_map, List.getElem_set]
  split
  · rename_i heq
    subst heq
    exact h
  · rfl

@[simp] theorem indexBefore_succ (n : Nat) : indexBefore (n + 1) = some n := rfl

theorem Holds.size_eq (h : array.Holds elements) : array.size = elements.length := h.1

theorem Holds.size_le (h : array.Holds elements) : array.size ≤ array.capacity := by
  obtain ⟨hsize, ⟨-, hcap, rfl⟩ | ⟨spare, -, hcap⟩⟩ := h
  · rw [hsize, hcap, List.length_nil]
  · omega

theorem Holds.capacity_of_data (h : array.Holds elements) (hdata : array.data = none) :
    array.capacity = 0 := by
  obtain ⟨-, ⟨-, hcap, -⟩ | ⟨spare, hsome, -⟩⟩ := h
  · exact hcap
  · rw [hdata] at hsome
    exact absurd hsome (by simp)

-- Without memory there is none to lose.
theorem Holds.movedFrom (h : array.Holds elements) (hcap : array.capacity = 0) :
    array.movedFrom.Holds [] := by
  have hsize : array.size = 0 := Nat.le_zero.mp (hcap ▸ h.size_le)
  exact ⟨hsize, .inl ⟨rfl, hcap, rfl⟩⟩

-- Growing keeps the elements, and the capacity asked for is there afterwards.
theorem Holds.ensure_capacity (h : array.Holds elements) (reqd : Nat) :
    (array.ensure_capacity reqd).Holds elements ∧ reqd ≤ (array.ensure_capacity reqd).capacity := by
  unfold SArray.ensure_capacity
  by_cases hlt : array.capacity < reqd
  · rw [if_pos hlt]
    obtain ⟨hsize, ⟨hdata, hcap, rfl⟩ | ⟨spare, hdata, hcap⟩⟩ := h
    · refine ⟨⟨hsize, .inr ⟨reqd, ?_, ?_⟩⟩, ?_⟩ <;> simp [realloc, hdata, hcap]
    · generalize hnew : (if array.capacity > 0 then array.capacity + 2 * (reqd - array.capacity)
        else reqd) = capacity
      have hle : array.capacity ≤ capacity ∧ reqd ≤ capacity := by
        subst hnew
        split <;> omega
      refine ⟨⟨hsize, .inr ⟨spare + (capacity - (elements.length + spare)), ?_, ?_⟩⟩, hle.2⟩
      · simp only [realloc, hdata, Option.getD_some, List.length_append, List.length_map,
          List.length_replicate, Option.some.injEq]
        rw [List.take_of_length_le (by simp; omega), List.append_assoc, List.replicate_append_replicate]
      · simp only
        omega
  · rw [if_neg hlt]
    exact ⟨h, by omega⟩

theorem Holds.push (h : array.Holds elements) (v : α) :
    ∃ array', array.push v = some array' ∧ array'.Holds (elements ++ [v]) := by
  obtain ⟨⟨hsize, hgrown⟩, hcap⟩ := h.ensure_capacity (array.size + 1)
  obtain ⟨-, hzero, -⟩ | ⟨spare, hdata, hspare⟩ := hgrown
  · omega
  · obtain ⟨spare, rfl⟩ : ∃ n, spare = n + 1 := ⟨spare - 1, by have := h.size_eq; omega⟩
    refine ⟨_, by rw [SArray.push, hdata]; rfl, ?_, .inr ⟨spare, ?_, ?_⟩⟩
    · simp [hsize]
    · have hlength : (elements.map some).length = elements.length := List.length_map _
      simp only [hsize, Option.some.injEq]
      rw [← hlength, List.set_append_right _ _ (Nat.le_refl _), Nat.sub_self, List.replicate_succ,
        List.set_cons_zero]
      simp
    · simp only [hspare, List.length_append, List.length_singleton]
      omega

theorem size_ensure_capacity (array : SArray α) (reqd : Nat) :
    (array.ensure_capacity reqd).size = array.size := by
  unfold SArray.ensure_capacity
  split <;> rfl

theorem le_capacity_ensure_capacity (array : SArray α) (reqd : Nat) :
    reqd ≤ (array.ensure_capacity reqd).capacity := by
  unfold SArray.ensure_capacity
  split
  · simp only
    split <;> omega
  · omega

theorem size_push {array' : SArray α} (h : array.push v = some array') :
    array'.size = array.size + 1 := by
  obtain ⟨cells, -, rfl⟩ := Option.map_eq_some_iff.mp h
  simp only [size_ensure_capacity]

-- A push needs memory, or has to fetch some.
def Pushable (array : SArray α) : Prop := array.data ≠ none ∨ array.capacity ≤ array.size

theorem pushable_iff : array.Pushable ↔ ∃ array', array.push v = some array' := by
  rw [Pushable]
  constructor
  · intro h
    have hdata : (array.ensure_capacity (array.size + 1)).data ≠ none := by
      unfold SArray.ensure_capacity
      split
      · simp
      · exact h.resolve_right (by omega)
    obtain ⟨cells, hcells⟩ := Option.ne_none_iff_exists'.mp hdata
    exact ⟨_, by rw [SArray.push, hcells]; rfl⟩
  · rintro ⟨array', hpush⟩
    by_cases hcap : array.capacity ≤ array.size
    · exact .inr hcap
    · obtain ⟨cells, hcells, -⟩ := Option.map_eq_some_iff.mp hpush
      rw [SArray.ensure_capacity, if_neg (by omega)] at hcells
      exact .inl (by simp [hcells])

theorem pushable_push {array' : SArray α} (h : array.push v = some array') : array'.Pushable := by
  obtain ⟨cells, -, rfl⟩ := Option.map_eq_some_iff.mp h
  exact .inl (by simp)

theorem size_modify {array' : SArray α} {n : Nat} {f : α → α} (h : array.modify n f = some array') :
    array'.size = array.size := by
  obtain ⟨cells, -, h⟩ := Option.bind_eq_some_iff.mp h
  obtain ⟨element, -, h⟩ := Option.bind_eq_some_iff.mp h
  obtain rfl := Option.some.inj h
  rfl

theorem Holds.clear (h : array.Holds elements) : array.clear.Holds [] := by
  obtain ⟨hsize, ⟨hdata, hcap, rfl⟩ | ⟨spare, hdata, hcap⟩⟩ := h
  · rw [SArray.clear, hdata]
    exact ⟨hsize, .inl ⟨hdata, hcap, rfl⟩⟩
  · rw [SArray.clear, hdata]
    refine ⟨rfl, .inr ⟨elements.length + spare, ?_, by simp [hcap]⟩⟩
    have hlength : (elements.map some).length = elements.length := List.length_map _
    simp only [hsize, List.length_append, hlength, List.length_replicate, List.map_nil,
      List.nil_append, Option.some.injEq]
    rw [← hlength, List.drop_left, hlength, Nat.min_eq_left (by omega),
      List.replicate_append_replicate]

theorem Holds.get (h : array.Holds elements) (n : Nat) : array.get n = elements[n]? := by
  obtain ⟨-, ⟨hdata, -, rfl⟩ | ⟨spare, hdata, -⟩⟩ := h
  · simp [SArray.get, hdata]
  · rw [SArray.get, hdata, Option.bind_some, List.getElem?_append, List.getElem?_replicate]
    by_cases hn : n < elements.length
    · simp [hn]
    · rw [if_neg (by simpa using hn), List.getElem?_eq_none (by omega)]
      split <;> rfl

theorem Holds.get_middle {front back : List α} (h : array.Holds (front ++ v :: back)) :
    array.get front.length = some v := by
  rw [h.get, List.getElem?_append_right (Nat.le_refl _), Nat.sub_self]
  rfl

theorem Holds.back (h : array.Holds (elements ++ [v])) : array.back = some v := by
  rw [SArray.back, h.size_eq, List.length_append, List.length_singleton, indexBefore_succ,
    Option.bind_eq_bind, Option.bind_some, h.get]
  simp

theorem Holds.elems (h : array.Holds elements) : array.elems = some elements := by
  obtain ⟨hsize, ⟨hdata, -, rfl⟩ | ⟨spare, hdata, -⟩⟩ := h
  · simp [SArray.elems, hdata, hsize]
  · have hlength : (elements.map some).length = elements.length := List.length_map _
    have htake : (elements.map some ++ List.replicate spare none).take elements.length =
        elements.map some := by
      rw [← hlength, List.take_left]
    have hall : (elements.map some).allSome = some elements := by
      simpa [List.allSome] using List.mapM_pure (m := Option) (l := elements) (f := id)
    simp only [SArray.elems, hdata, hsize, htake, hall]
    rw [if_pos (by simp)]

theorem Holds.unique {other : List α} (h : array.Holds elements) (h' : array.Holds other) :
    elements = other :=
  Option.some.inj (h.elems.symm.trans h'.elems)

theorem Holds.modify (h : array.Holds elements) {n : Nat} (hn : n < elements.length) (f : α → α) :
    ∃ array', array.modify n f = some array' ∧ array'.Holds (elements.set n (f elements[n])) := by
  obtain ⟨hsize, ⟨-, -, rfl⟩ | ⟨spare, hdata, hcap⟩⟩ := h
  · exact absurd hn (Nat.not_lt_zero _)
  · have hget : ((elements.map some ++ List.replicate spare none)[n]?).join = some elements[n] := by
      rw [List.getElem?_append_left (by simpa using hn)]
      simp [hn]
    refine ⟨_, by simp only [SArray.modify, hdata, Option.bind_eq_bind, Option.bind_some, hget]; rfl,
      by simpa using hsize, .inr ⟨spare, ?_, by simpa using hcap⟩⟩
    simp [List.set_append_left _ _ (show n < (elements.map some).length by simpa using hn)]

-- Only an element that there is can be replaced.
theorem Holds.of_modify {array' : SArray α} {n : Nat} {f : α → α} (h : array.Holds elements)
    (hmodify : array.modify n f = some array') :
    ∃ hn : n < elements.length, array'.Holds (elements.set n (f elements[n])) := by
  by_cases hn : n < elements.length
  · obtain ⟨array'', hmodify', hholds'⟩ := h.modify hn f
    obtain rfl := Option.some.inj (hmodify'.symm.trans hmodify)
    exact ⟨hn, hholds'⟩
  · obtain ⟨cells, hcells, hmodify⟩ := Option.bind_eq_some_iff.mp hmodify
    obtain ⟨element, helement, -⟩ := Option.bind_eq_some_iff.mp hmodify
    have hget : array.get n = some element := by rw [SArray.get, hcells, Option.bind_some, helement]
    rw [h.get, List.getElem?_eq_none (by omega)] at hget
    exact absurd hget (by simp)

theorem Holds.pushAll (h : array.Holds elements) (more : List α) :
    ∃ array', array.pushAll more = some array' ∧ array'.Holds (elements ++ more) := by
  induction more generalizing array elements with
  | nil => exact ⟨array, rfl, by simpa using h⟩
  | cons v more ih =>
      obtain ⟨middle, hpush, hmiddle⟩ := h.push v
      obtain ⟨last, hrest, hlast⟩ := ih hmiddle
      refine ⟨last, ?_, by simpa using hlast⟩
      rw [SArray.pushAll, hpush]
      exact hrest

theorem forall₂_of_mapM {β : Type} {f : α → Option β} {copies : List β}
    (h : elements.mapM f = some copies) :
    List.Forall₂ (fun element copy => f element = some copy) elements copies := by
  induction elements generalizing copies with
  | nil =>
      obtain rfl : [] = copies := Option.some.inj h
      exact .nil
  | cons element elements ih =>
      rw [List.mapM_cons] at h
      obtain ⟨copy, hcopy, h⟩ := Option.bind_eq_some_iff.mp h
      obtain ⟨rest, hrest, h⟩ := Option.bind_eq_some_iff.mp h
      obtain rfl : copy :: rest = copies := Option.some.inj h
      exact .cons hcopy (ih hrest)

theorem Holds.destructible (h : array.Holds elements) : array.Destructible := by
  intro _
  rw [h.elems]
  exact Option.some_ne_none elements

-- An array with memory whose elements are all there.
theorem Occurs.holds (h : array.Occurs) (helems : array.Destructible) (hdata : array.data ≠ none) :
    ∃ elements, array.Holds elements := by
  obtain hnone | ⟨front, spare, hcells, hsize, hcap⟩ := h
  · exact absurd hnone hdata
  · obtain ⟨elements, hsome⟩ := Option.ne_none_iff_exists'.mp (helems hdata)
    have hlength := hsize
    rw [SArray.elems, hcells] at hsome
    simp only [hsize, List.length_append, Nat.le_add_right, if_true, List.take_left] at hsome
    have hfront : front = elements.map some := by
      have hall := forall₂_of_mapM (f := id) hsome
      clear hcells hsize hcap hlength hsome
      induction hall with
      | nil => rfl
      | cons hhead _ ih => rw [List.map_cons, ← ih, ← hhead, id_eq]
    subst hfront
    rw [List.length_map] at hsize hcap
    exact ⟨elements, hsize, .inr ⟨spare, hcells, hcap⟩⟩

theorem mapM_of_forall₂ {β : Type} {f : α → Option β} {copies : List β}
    (h : List.Forall₂ (fun element copy => f element = some copy) elements copies) :
    elements.mapM f = some copies := by
  induction h with
  | nil => rfl
  | cons hhead htail ih => simp [List.mapM_cons, hhead, ih]

-- A copy holds the copies of the elements.
theorem holds_of_copy {copyElement : α → Option α} {array' : SArray α}
    (helems : array.elems = some elements) (hcopy : array.copy copyElement = some array') :
    ∃ copies, array'.Holds copies ∧
      List.Forall₂ (fun v copy => (copyElement v >>= copyElement) = some copy) elements copies := by
  obtain ⟨_, helems', hcopy⟩ := Option.bind_eq_some_iff.mp hcopy
  obtain rfl := Option.some.inj (helems.symm.trans helems')
  obtain ⟨copies, hcopies, hpush⟩ := Option.bind_eq_some_iff.mp hcopy
  obtain ⟨array'', hpush', hholds⟩ := (holds_alloc (α := α) array.size).pushAll copies
  obtain rfl : array'' = array' := Option.some.inj (hpush'.symm.trans hpush)
  exact ⟨copies, by simpa using hholds, forall₂_of_mapM hcopies⟩

theorem Holds.copy {copyElement : α → Option α} {array' : SArray α} (h : array.Holds elements)
    (hcopy : array.copy copyElement = some array') :
    ∃ copies, array'.Holds copies ∧
      List.Forall₂ (fun v copy => (copyElement v >>= copyElement) = some copy) elements copies :=
  holds_of_copy h.elems hcopy

-- Elements that can be copied are all that it takes.
theorem Holds.exists_copy {copyElement : α → Option α} {copies : List α} (h : array.Holds elements)
    (hcopies : List.Forall₂ (fun v copy => (copyElement v >>= copyElement) = some copy) elements copies) :
    ∃ array', array.copy copyElement = some array' ∧ array'.Holds copies := by
  obtain ⟨array', hpush, hholds⟩ := (holds_alloc (α := α) array.size).pushAll copies
  refine ⟨array', ?_, by simpa using hholds⟩
  rw [SArray.copy, h.elems, Option.bind_eq_bind, Option.bind_some, mapM_of_forall₂ hcopies]
  exact hpush

theorem Holds.exists_assign {copyElement : α → Option α} {copies old : List α} {target : SArray α}
    (h : array.Holds elements) (htarget : target.Holds old)
    (hcopies : List.Forall₂ (fun v copy => (copyElement v >>= copyElement) = some copy) elements copies) :
    ∃ array', target.assign copyElement array = some array' ∧ array'.Holds copies := by
  have hready := (htarget.clear.ensure_capacity array.capacity).1
  obtain ⟨array', hpush, hholds⟩ := hready.pushAll copies
  refine ⟨array', ?_, by simpa using hholds⟩
  rw [SArray.assign, h.elems, Option.bind_eq_bind, Option.bind_some, mapM_of_forall₂ hcopies]
  exact hpush

-- Elements go through two copies each.
theorem good_of_copies {Good : α → Prop} {copyElement : α → Option α}
    (hkeep : ∀ v w, Good v → copyElement v = some w → Good w)
    {elements copies : List α} (hgood : ∀ v ∈ elements, Good v)
    (hcopies : List.Forall₂ (fun v copy => (copyElement v >>= copyElement) = some copy) elements copies) :
    ∀ copy ∈ copies, Good copy := by
  induction hcopies with
  | nil => simp
  | @cons v copy elements copies hcopy _ ih =>
      obtain ⟨middle, hfirst, hsecond⟩ := Option.bind_eq_some_iff.mp hcopy
      rw [List.forall_mem_cons] at hgood ⊢
      exact ⟨hkeep middle copy (hkeep v middle hgood.1 hfirst) hsecond, ih hgood.2⟩

theorem Holds.sort (h : array.Holds elements) (le : α → α → Bool) :
    ∃ array', array.sort le = some array' ∧
      array'.Holds (elements.insertionSort fun a b => le a b) := by
  refine ⟨_, by simp only [SArray.sort, h.elems, Option.bind_eq_bind, Option.bind_some]; rfl, ?_⟩
  obtain ⟨hsize, ⟨hdata, hcap, rfl⟩ | ⟨spare, hdata, hcap⟩⟩ := h
  · exact ⟨hsize, .inl ⟨by simp [hdata], hcap, rfl⟩⟩
  · have hlength : (elements.map some).length = elements.length := List.length_map _
    refine ⟨by simp [hsize, List.length_insertionSort], .inr ⟨spare, ?_, ?_⟩⟩
    · simp only [hdata, Option.map_some, hsize]
      rw [← hlength, List.drop_left]
    · simp [hcap, List.length_insertionSort]

-- What a loop over the array finds is what the indices below its size lead to.
theorem get_of_elems (h : array.elems = some elements) :
    array.size = elements.length ∧ ∀ i, i < elements.length → array.get i = elements[i]? := by
  unfold elems at h
  split at h
  · rename_i hdata
    obtain ⟨hsize, h⟩ := Option.ite_none_right_eq_some.mp h
    obtain rfl := Option.some.inj h
    exact ⟨hsize, fun i hi => absurd hi (Nat.not_lt_zero i)⟩
  · rename_i cells hdata
    obtain ⟨hle, h⟩ := Option.ite_none_right_eq_some.mp h
    have hcells := forall₂_of_mapM (f := id) h
    have hlength := hcells.length_eq
    rw [List.length_take, Nat.min_eq_left hle] at hlength
    refine ⟨hlength, fun i hi => ?_⟩
    have hcell := hcells.get (i := i) (by rw [hcells.length_eq]; exact hi) hi
    rw [get, hdata, Option.bind_some, List.getElem?_eq_getElem (by omega),
      List.getElem?_eq_getElem hi, Option.join_some]
    simpa using hcell

section Contains

-- Growing gives a moved-from array memory again.
theorem holds_grown (hdata : array.data = none) (hsize : array.size = 0) {reqd : Nat}
    (hcap : array.capacity < reqd) : (array.ensure_capacity reqd).Holds [] := by
  unfold SArray.ensure_capacity
  rw [if_pos hcap]
  refine ⟨hsize, .inr ⟨_, ?_, by simp; rfl⟩⟩
  simp [realloc, hdata]

theorem Contains.ensure_capacity (h : array.Contains elements) (reqd : Nat) :
    (array.ensure_capacity reqd).Contains elements := by
  obtain h | ⟨rfl, hdata, hsize⟩ := h
  · exact .inl (h.ensure_capacity reqd).1
  · by_cases hcap : array.capacity < reqd
    · exact .inl (holds_grown hdata hsize hcap)
    · rw [SArray.ensure_capacity, if_neg hcap]
      exact .inr ⟨rfl, hdata, hsize⟩

theorem Contains.clear (h : array.Contains elements) : array.clear.Contains [] := by
  obtain h | ⟨rfl, hdata, hsize⟩ := h
  · exact .inl h.clear
  · rw [SArray.clear, hdata]
    exact .inr ⟨rfl, hdata, hsize⟩

theorem push_eq_none (hdata : array.data = none) (hcap : array.size < array.capacity) :
    array.push v = none := by
  rw [SArray.push, SArray.ensure_capacity, if_neg (by omega), hdata]
  rfl

-- A moved-out array that grows again has raw memory where its elements were.
theorem elems_push_eq_none {array' : SArray α} (hdata : array.data = none) (hsize : 0 < array.size)
    (hpush : array.push v = some array') : array'.elems = none := by
  obtain ⟨n, hn⟩ : ∃ n, array.size = n + 1 := ⟨array.size - 1, by omega⟩
  by_cases hcap : array.capacity < array.size + 1
  · have hgrown : (array.ensure_capacity (array.size + 1)).data =
        some (List.replicate (array.ensure_capacity (array.size + 1)).capacity none) := by
      rw [ensure_capacity, if_pos hcap]
      simp [realloc, hdata]
    obtain ⟨c, hc⟩ : ∃ c, (array.ensure_capacity (array.size + 1)).capacity = c + 1 :=
      ⟨(array.ensure_capacity (array.size + 1)).capacity - 1, by
        have := le_capacity_ensure_capacity array (array.size + 1)
        omega⟩
    rw [SArray.push, hgrown, hc] at hpush
    obtain rfl := Option.some.inj hpush
    simp [elems, hn, size_ensure_capacity, List.replicate_succ, List.allSome]
  · rw [push_eq_none hdata (by omega)] at hpush
    exact absurd hpush (by simp)

theorem Contains.push {array' : SArray α} (h : array.Contains elements)
    (hpush : array.push v = some array') : array'.Holds (elements ++ [v]) := by
  have hholds : array.Holds elements := by
    obtain h | ⟨rfl, hdata, hsize⟩ := h
    · exact h
    · by_cases hcap : array.size < array.capacity
      · rw [push_eq_none hdata hcap] at hpush
        exact absurd hpush (by simp)
      · exact ⟨hsize, .inl ⟨hdata, by omega, rfl⟩⟩
  obtain ⟨array'', hpush', hholds'⟩ := hholds.push v
  obtain rfl := Option.some.inj (hpush'.symm.trans hpush)
  exact hholds'

theorem Contains.elems (h : array.Contains elements) : array.elems = some elements := by
  obtain h | ⟨rfl, hdata, hsize⟩ := h
  · exact h.elems
  · simp [SArray.elems, hdata, hsize]

theorem Contains.size_eq (h : array.Contains elements) : array.size = elements.length := by
  obtain h | ⟨rfl, -, hsize⟩ := h
  · exact h.size_eq
  · exact hsize

theorem Contains.get (h : array.Contains elements) (n : Nat) : array.get n = elements[n]? := by
  obtain h | ⟨rfl, hdata, -⟩ := h
  · exact h.get n
  · simp [SArray.get, hdata]

-- A relation of arrays to their elements that growing and pushing respect.
structure Collects (Has : SArray α → List α → Prop) : Prop where
  ensure_capacity : ∀ {array : SArray α} {elements : List α} (reqd : Nat), Has array elements →
    Has (array.ensure_capacity reqd) elements
  push : ∀ {array array' : SArray α} {elements : List α} {v : α}, Has array elements →
    array.push v = some array' → Has array' (elements ++ [v])

theorem collects_contains : Collects (α := α) Contains where
  ensure_capacity reqd h := h.ensure_capacity reqd
  push h hpush := .inl (h.push hpush)

theorem collects_holds : Collects (α := α) Holds where
  ensure_capacity reqd h := (h.ensure_capacity reqd).1
  push h hpush := Contains.push (.inl h) hpush

section Collects

variable {Has : SArray α → List α → Prop} {array' target : SArray α} {copyElement : α → Option α}

theorem Collects.pushAll (hcollects : Collects Has) {more : List α} (h : Has array elements)
    (hpush : array.pushAll more = some array') : Has array' (elements ++ more) := by
  induction more generalizing array elements with
  | nil =>
      obtain rfl := Option.some.inj hpush
      simpa using h
  | cons v more ih =>
      obtain ⟨middle, hmiddle, hrest⟩ := Option.bind_eq_some_iff.mp hpush
      simpa using ih (hcollects.push h hmiddle) hrest

theorem Collects.assign (hcollects : Collects Has) (helems : array.elems = some elements)
    (htarget : Has target.clear []) (hassign : target.assign copyElement array = some array') :
    ∃ copies, Has array' copies ∧
      List.Forall₂ (fun v copy => (copyElement v >>= copyElement) = some copy) elements copies := by
  obtain ⟨_, helems', hassign⟩ := Option.bind_eq_some_iff.mp hassign
  obtain rfl := Option.some.inj (helems.symm.trans helems')
  obtain ⟨copies, hcopies, hpush⟩ := Option.bind_eq_some_iff.mp hassign
  have hnew := hcollects.ensure_capacity array.capacity htarget
  exact ⟨copies, by simpa using hcollects.pushAll hnew hpush, forall₂_of_mapM hcopies⟩

end Collects

theorem Contains.copy {copyElement : α → Option α} {array' : SArray α} (h : array.Contains elements)
    (hcopy : array.copy copyElement = some array') :
    ∃ copies, array'.Contains copies ∧
      List.Forall₂ (fun v copy => (copyElement v >>= copyElement) = some copy) elements copies := by
  obtain ⟨copies, hholds, hcopies⟩ := holds_of_copy h.elems hcopy
  exact ⟨copies, .inl hholds, hcopies⟩

theorem Contains.assign {target array' : SArray α} {old : List α} {copyElement : α → Option α}
    (h : array.Contains elements) (htarget : target.Contains old)
    (hassign : target.assign copyElement array = some array') :
    ∃ copies, array'.Contains copies ∧
      List.Forall₂ (fun v copy => (copyElement v >>= copyElement) = some copy) elements copies :=
  collects_contains.assign h.elems htarget.clear hassign

end Contains

end RoboCrisp.Util.SArray
