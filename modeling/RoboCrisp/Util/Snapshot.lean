import Mathlib.Data.List.Induction
import Mathlib.Data.List.Nodup

-- A loop over a snapshot of a set. A turn may remove elements from the set, but some elements
-- are held elsewhere and have their turn even so.
namespace RoboCrisp.Util.Snapshot

variable {α : Type} {removes : α → α → Prop} {held : α → Prop} {first post done order calls : List α}
  {a c : α}

-- None of the elements before it has had a turn that removes the element.
def Kept (removes : α → α → Prop) (calls first : List α) (a : α) : Prop :=
  ∀ b ∈ first, b ∈ calls → ¬removes b a

theorem kept_cons :
    Kept removes (c :: calls) (c :: first) a ↔ ¬removes c a ∧ Kept removes calls first a := by
  constructor
  · intro hkept
    refine ⟨hkept c List.mem_cons_self List.mem_cons_self, fun b hb hcall => ?_⟩
    exact hkept b (List.mem_cons_of_mem _ hb) (List.mem_cons_of_mem _ hcall)
  · rintro ⟨hlast, hkept⟩ b hb hcall
    rcases List.mem_cons.mp hcall with rfl | hcall
    · exact hlast
    · rcases List.mem_cons.mp hb with rfl | hb
      · exact hlast
      · exact hkept b hb hcall

theorem kept_cons_of_not_mem (hc : c ∉ calls) :
    Kept removes calls (c :: first) a ↔ Kept removes calls first a := by
  refine ⟨fun hkept b hb => hkept b (List.mem_cons_of_mem _ hb), fun hkept b hb hcall => ?_⟩
  rcases List.mem_cons.mp hb with rfl | hb
  · exact absurd hcall hc
  · exact hkept b hb hcall

-- The elements that have their turn are just those that have not been removed before it.
def TurnsKept (removes : α → α → Prop) (order calls : List α) : Prop :=
  ∀ first a post, order = first ++ a :: post → (a ∈ calls ↔ Kept removes calls first a)

-- Where an element that is held is one that is kept anyhow, holding makes no difference.
theorem TurnsKept.mem_iff {others : List α} (hothers : TurnsKept removes order others)
    (hcalls : ∀ first a post, order = first ++ a :: post →
      (a ∈ calls ↔ held a ∨ Kept removes calls first a))
    (hheld : ∀ first a post, order = first ++ a :: post → held a → Kept removes others first a) :
    ∀ first post, order = first ++ post → ∀ a ∈ first, a ∈ calls ↔ a ∈ others := by
  intro first
  induction first using List.reverseRecOn with
  | nil => exact fun _ _ _ hmem => absurd hmem List.not_mem_nil
  | append_singleton first c ih =>
      intro post heq a hmem
      have hsplit : order = first ++ c :: post := by
        rw [heq, List.append_assoc, List.singleton_append]
      have hfirst := ih (c :: post) hsplit
      rcases List.mem_append.mp hmem with hmem | hmem
      · exact hfirst a hmem
      · obtain rfl := List.mem_singleton.mp hmem
        have hkept : Kept removes calls first a ↔ Kept removes others first a :=
          forall₂_congr fun b hb => by rw [hfirst b hb]
        rw [hcalls first a post hsplit, hothers first a post hsplit, hkept]
        exact or_iff_right_of_imp (hheld first a post hsplit)

theorem TurnsKept.agree {others : List α} (hcalls : TurnsKept removes order calls)
    (hothers : TurnsKept removes order others) :
    ∀ first post, order = first ++ post → ∀ a ∈ first, a ∈ calls ↔ a ∈ others := by
  have hnone (first : List α) (a : α) (post : List α) (horder : order = first ++ a :: post) :
      a ∈ calls ↔ (fun _ => False) a ∨ Kept removes calls first a := by
    rw [hcalls first a post horder, false_or]
  exact hothers.mem_iff hnone fun _ _ _ _ => False.elim

section Loop

variable [DecidableRel removes] [DecidablePred held]

variable (removes held) in
-- The elements that have their turn in the rest of the loop, after those in `done` had theirs.
def visited : List α → List α → List α
  | _, [] => []
  | done, a :: rest =>
      if held a ∨ ∀ b ∈ done, ¬removes b a then a :: visited (done ++ [a]) rest
      else visited done rest

theorem visited_sublist (done order : List α) : (visited removes held done order).Sublist order := by
  induction order generalizing done with
  | nil => exact .slnil
  | cons a rest ih =>
      rw [visited]
      split
      · exact (ih _).cons_cons a
      · exact (ih _).cons a

theorem mem_visited_append (hnodup : (first ++ a :: post).Nodup) :
    a ∈ visited removes held done (first ++ a :: post) ↔
      held a ∨ (∀ b ∈ done, ¬removes b a) ∧
        Kept removes (visited removes held done (first ++ a :: post)) first a := by
  induction first generalizing done with
  | nil =>
      have hpost : a ∉ visited removes held done post := fun hmem =>
        (List.nodup_cons.mp hnodup).1 ((visited_sublist done post).subset hmem)
      rw [List.nil_append, visited]
      split
      · rename_i hturn
        simpa [Kept] using hturn
      · rename_i hturn
        simpa [Kept, hpost] using hturn
  | cons c first ih =>
      obtain ⟨hc, hnodup⟩ := List.nodup_cons.mp hnodup
      have hne : a ≠ c := by
        rintro rfl
        exact hc (List.mem_append_right _ List.mem_cons_self)
      rw [List.cons_append, visited]
      split
      · rw [List.mem_cons, or_iff_right hne, ih hnodup, kept_cons, List.forall_mem_append,
          List.forall_mem_singleton, and_assoc]
      · rw [ih hnodup, kept_cons_of_not_mem]
        exact fun hmem => hc ((visited_sublist done _).subset hmem)

theorem mem_visited (hnodup : order.Nodup) (horder : order = first ++ a :: post) :
    a ∈ visited removes held [] order ↔
      held a ∨ Kept removes (visited removes held [] order) first a := by
  obtain rfl := horder
  rw [mem_visited_append hnodup]
  exact or_congr_right (and_iff_right (List.forall_mem_nil _))

variable (removes) in
-- The loop that there would be if nothing was held elsewhere: each element that is still in the
-- set has its turn.
def attended (order : List α) : List α := visited removes (fun _ => False) [] order

theorem attended_turnsKept (hnodup : order.Nodup) : TurnsKept removes order (attended removes order) := by
  intro first a post horder
  rw [attended, mem_visited hnodup horder, false_or]

-- What has its turn is just what has not been removed before, exactly if what is held elsewhere
-- is never removed before its turn.
theorem visited_turnsKept_iff (hnodup : order.Nodup) :
    TurnsKept removes order (visited removes held [] order) ↔
      ∀ first a post, order = first ++ a :: post → held a →
        Kept removes (attended removes order) first a := by
  have hattended : TurnsKept removes order (attended removes order) := attended_turnsKept hnodup
  constructor
  · intro hvisited first a post horder hheld
    have hmem : a ∈ visited removes held [] order := (mem_visited hnodup horder).mpr (.inl hheld)
    have hkept := (hvisited first a post horder).mp hmem
    have hagree := hvisited.agree hattended first (a :: post) horder
    exact fun b hb hcall => hkept b hb ((hagree b hb).mpr hcall)
  · intro hheld first a post horder
    have hcalls (first : List α) (a : α) (post : List α) (horder : order = first ++ a :: post) :
        a ∈ visited removes held [] order ↔
          held a ∨ Kept removes (visited removes held [] order) first a :=
      mem_visited hnodup horder
    have hagree := hattended.mem_iff hcalls hheld first (a :: post) horder
    have hkept : Kept removes (visited removes held [] order) first a ↔
        Kept removes (attended removes order) first a :=
      forall₂_congr fun b hb => by rw [hagree b hb]
    rw [mem_visited hnodup horder, hkept]
    exact or_iff_right_of_imp (hheld first a post horder)

end Loop

end RoboCrisp.Util.Snapshot
