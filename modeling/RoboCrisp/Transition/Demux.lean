import Mathlib.Data.List.Basic
import Mathlib.Logic.Function.Basic

namespace RoboCrisp.Transition

-- What a machine puts out on an input, its next state, and whether it goes on.
abbrev Machine (σ β ω : Type) := σ → β → List ω × σ × Bool

namespace Machine

variable {ι σ β γ ω : Type}

-- Up to the input that the machine doesn't go on after.
def run (machine : Machine σ β ω) : σ → List β → List ω × σ × Bool
  | s, [] => ([], s, true)
  | s, b :: rest =>
      if (machine s b).2.2 then
        ((machine s b).1 ++ (run machine (machine s b).2.1 rest).1,
          (run machine (machine s b).2.1 rest).2)
      else machine s b

@[simp] theorem run_nil (machine : Machine σ β ω) (s : σ) : machine.run s [] = ([], s, true) := rfl

theorem run_cons_of_true {machine : Machine σ β ω} {s : σ} {b : β} (h : (machine s b).2.2 = true)
    (rest : List β) : machine.run s (b :: rest) =
      ((machine s b).1 ++ (machine.run (machine s b).2.1 rest).1,
        (machine.run (machine s b).2.1 rest).2) := by
  rw [run, if_pos h]

theorem run_cons_of_false {machine : Machine σ β ω} {s : σ} {b : β} (h : (machine s b).2.2 = false)
    (rest : List β) : machine.run s (b :: rest) = machine s b := by
  rw [run, if_neg (by simp [h])]

-- A machine that stays as it is puts out the same on an input wherever it stands.
theorem run_of_still {machine : Machine σ β ω} {s : σ} {inputs : List β}
    (hstill : ∀ b ∈ inputs, (machine s b).2 = (s, true)) :
    machine.run s inputs = (inputs.flatMap fun b => (machine s b).1, s, true) := by
  induction inputs with
  | nil => rfl
  | cons b rest ih =>
      have hfirst := hstill b List.mem_cons_self
      rw [run_cons_of_true (by rw [hfirst]), hfirst, ih fun b hb => hstill b (List.mem_cons_of_mem _ hb),
        List.flatMap_cons]

theorem run_append_of_still {machine : Machine σ β ω} {s : σ} {inputs : List β} {b : β}
    (hstill : ∀ b ∈ inputs, (machine s b).2 = (s, true)) (hlast : (machine s b).2.2 = false)
    (rest : List β) : machine.run s (inputs ++ b :: rest) =
      ((inputs.flatMap fun b => (machine s b).1) ++ (machine s b).1, (machine s b).2) := by
  induction inputs with
  | nil => exact run_cons_of_false hlast rest
  | cons a inputs ih =>
      have hfirst := hstill a List.mem_cons_self
      rw [List.cons_append, run_cons_of_true (by rw [hfirst]), hfirst,
        ih fun b hb => hstill b (List.mem_cons_of_mem _ hb), List.flatMap_cons, List.append_assoc]

variable [DecidableEq ι]

-- What is meant for one of many.
def own {α : Type} (i : ι) (tagged : Option (ι × α)) : Option α :=
  match tagged with
  | some (j, a) => if j = i then some a else none
  | none => none

@[simp] theorem own_none {α : Type} (i : ι) : own i (none : Option (ι × α)) = none := rfl

theorem own_self {α : Type} (i : ι) (a : α) : own i (some (i, a)) = some a := if_pos rfl

theorem own_of_ne {α : Type} {i j : ι} (h : j ≠ i) (a : α) : own i (some (j, a)) = none := if_neg h

-- Many machines behind one input. An input goes to at most one of them, and the first that doesn't
-- go on ends them all.
def joint (route : γ → Option (ι × β)) (machine : ι → Machine σ β ω) : Machine (ι → σ) γ (ι × ω) :=
  fun s c =>
    match route c with
    | none => ([], s, true)
    | some (i, b) =>
        ((machine i (s i) b).1.map (i, ·), Function.update s i (machine i (s i) b).2.1,
          (machine i (s i) b).2.2)

theorem joint_of_none {route : γ → Option (ι × β)} {c : γ} (h : route c = none)
    (machine : ι → Machine σ β ω) (s : ι → σ) : joint route machine s c = ([], s, true) := by
  simp only [joint, h]

theorem joint_of_some {route : γ → Option (ι × β)} {c : γ} {i : ι} {b : β} (h : route c = some (i, b))
    (machine : ι → Machine σ β ω) (s : ι → σ) : joint route machine s c =
      ((machine i (s i) b).1.map (i, ·), Function.update s i (machine i (s i) b).2.1,
        (machine i (s i) b).2.2) := by
  simp only [joint, h]

theorem filterMap_own_self (i : ι) (out : List ω) :
    (out.map (i, ·)).filterMap (fun o => own i (some o)) = out := by
  rw [List.filterMap_map]
  have hown : (fun o => own i (some o)) ∘ (i, ·) = (some : ω → Option ω) := by
    funext o
    exact own_self i o
  rw [hown, List.filterMap_some]

theorem filterMap_own_of_ne {i j : ι} (h : j ≠ i) (out : List ω) :
    (out.map (j, ·)).filterMap (fun o => own i (some o)) = [] := by
  rw [List.filterMap_map, List.filterMap_eq_nil_iff]
  intro o _
  exact own_of_ne h o

-- One of many behaves as it would with its own inputs alone, up to the input that ends them all.
-- That input is one of the machine's that doesn't go on.
structure Separates (route : γ → Option (ι × β)) (machine : ι → Machine σ β ω) (s : ι → σ)
    (inputs taken : List γ) (going : ι → Bool) : Prop where
  taken_prefix : taken <+: inputs
  run_own : ∀ i, (machine i).run (s i) (taken.filterMap fun c => own i (route c)) =
    (((joint route machine).run s inputs).1.filterMap (fun o => own i (some o)),
      ((joint route machine).run s inputs).2.1 i, going i)
  all_taken : ((joint route machine).run s inputs).2.2 = true → taken = inputs ∧ ∀ i, going i = true
  one_ends : ((joint route machine).run s inputs).2.2 = false → ∃ i, ∀ j, going j = decide (j ≠ i)

theorem exists_separates (route : γ → Option (ι × β)) (machine : ι → Machine σ β ω) (s : ι → σ)
    (inputs : List γ) : ∃ taken going, Separates route machine s inputs taken going := by
  induction inputs generalizing s with
  | nil =>
      exact ⟨[], fun _ => true, List.prefix_rfl, fun _ => rfl, fun _ => ⟨rfl, fun _ => rfl⟩,
        fun h => absurd h (by simp)⟩
  | cons c rest ih =>
      cases hroute : route c with
      | none =>
          obtain ⟨taken, going, h⟩ := ih s
          have hrun : (joint route machine).run s (c :: rest) = (joint route machine).run s rest := by
            rw [run_cons_of_true (by rw [joint_of_none hroute]), joint_of_none hroute, List.nil_append]
          refine ⟨c :: taken, going, (List.prefix_cons_inj c).mpr h.taken_prefix, fun i => ?_, ?_, ?_⟩
          · rw [List.filterMap_cons_none (by rw [hroute, own_none]), hrun]
            exact h.run_own i
          · rw [hrun]
            intro hgoing
            exact ⟨congrArg (c :: ·) (h.all_taken hgoing).1, (h.all_taken hgoing).2⟩
          · rw [hrun]
            exact h.one_ends
      | some p =>
          obtain ⟨j, b⟩ := p
          have hjoint := joint_of_some hroute machine s
          cases hgoing : (machine j (s j) b).2.2 with
          | false =>
              have hrun : (joint route machine).run s (c :: rest) = joint route machine s c :=
                run_cons_of_false (by rw [hjoint, hgoing]) rest
              refine ⟨[c], fun i => decide (i ≠ j), ⟨rest, rfl⟩, fun i => ?_, ?_, fun _ => ⟨j, fun _ => rfl⟩⟩
              · rw [hrun, hjoint]
                by_cases hi : j = i
                · subst hi
                  rw [List.filterMap_cons_some (by rw [hroute, own_self]), List.filterMap_nil,
                    run_cons_of_false hgoing, filterMap_own_self]
                  simp [← hgoing]
                · rw [List.filterMap_cons_none (by rw [hroute, own_of_ne hi]), List.filterMap_nil,
                    filterMap_own_of_ne hi]
                  simp [Ne.symm hi]
              · rw [hrun, hjoint]
                simp [hgoing]
          | true =>
              obtain ⟨taken, going, h⟩ := ih (Function.update s j (machine j (s j) b).2.1)
              have hjoint_going : (joint route machine s c).2.2 = true := by rw [hjoint, hgoing]
              have hrun := run_cons_of_true hjoint_going rest
              rw [hjoint] at hrun
              refine ⟨c :: taken, going, (List.prefix_cons_inj c).mpr h.taken_prefix, fun i => ?_, ?_, ?_⟩
              · have hown := h.run_own i
                rw [hrun, List.filterMap_append]
                by_cases hi : j = i
                · subst hi
                  rw [Function.update_self] at hown
                  rw [List.filterMap_cons_some (by rw [hroute, own_self]), run_cons_of_true hgoing, hown,
                    filterMap_own_self]
                · rw [Function.update_of_ne (Ne.symm hi)] at hown
                  rw [List.filterMap_cons_none (by rw [hroute, own_of_ne hi]), hown,
                    filterMap_own_of_ne hi, List.nil_append]
              · rw [hrun]
                intro hgoing
                exact ⟨congrArg (c :: ·) (h.all_taken hgoing).1, (h.all_taken hgoing).2⟩
              · rw [hrun]
                exact h.one_ends

end Machine

end RoboCrisp.Transition
