import RoboCrisp.Comms.NodeServer

namespace RoboCrisp.Comms

open RoboCrisp.Transition

-- The nodes of which the server still has to dispose, out of those in the set.
def HaltLoop.remaining (nodes : List Nat) : HaltLoop → List Nat
  | .idle => nodes
  | .entered => nodes
  | .iterating node rest => node.toList ++ rest
  | .done => []

theorem HaltLoop.remaining_insert (loop : HaltLoop) (nodes : List Nat) (x : Nat) (seen : Bool) :
    (loop.insert x seen).remaining (nodes ++ [x]) = loop.remaining nodes ++ [x] ∨
      (loop.insert x seen).remaining (nodes ++ [x]) = loop.remaining nodes := by
  cases loop with
  | idle => exact .inl rfl
  | entered => exact .inl rfl
  | iterating node rest =>
      cases seen with
      | true => exact .inl (List.append_assoc _ _ _).symm
      | false => exact .inr rfl
  | done => exact .inr rfl

namespace NodeServer

variable {s s' t : NodeServer} {trace : List ServerEvent}

-- No node has been deleted twice, and no loop over the set has lost the element it was at.
structure Disposed (s : NodeServer) : Prop where
  deleted : s.deleted.Nodup
  torn : s.torn = false

-- A handler finds the node alive that the variable has, and no loop over the set under way.
def HandlesAlive (s : NodeServer) : ServerEvent → Prop
  | .handler _ => (∀ x ∈ s.node, x ∉ s.deleted) ∧ s.halt_loop.iterates = false
  | _ => True

instance (s : NodeServer) : (e : ServerEvent) → Decidable (s.HandlesAlive e)
  | .handler _ => inferInstanceAs (Decidable ((∀ x ∈ s.node, x ∉ s.deleted) ∧
      s.halt_loop.iterates = false))
  | .server_main | .accept _ | .accept_failed | .disconnect _ | .halt | .halt_begin | .halt_node _
  | .halt_delete | .halt_end => .isTrue trivial

structure Owned (s : NodeServer) : Prop extends Disposed s where
  nodes_nodup : s.nodes.Nodup
  nodes_lt : ∀ x ∈ s.nodes, x < s.next_node
  deleted_lt : ∀ x ∈ s.deleted, x < s.next_node
  halting : s.halting = false → s.halt_loop = .idle
  remaining_nodup : (s.halt_loop.remaining s.nodes).Nodup
  remaining_mem : ∀ x ∈ s.halt_loop.remaining s.nodes, x ∈ s.nodes ∧ x ∉ s.deleted

-- The variable has a node that is in the set or has been deleted.
def Captured (s : NodeServer) : Prop := ∀ x ∈ s.node, x ∈ s.nodes ∨ x ∈ s.deleted

theorem Owned.halt (h : s.Owned) : s.halt.Owned := by
  unfold NodeServer.halt
  split
  · exact h
  · rename_i hhalting
    have hidle := h.halting ((Bool.not_eq_true _).mp hhalting)
    have hnodup := h.remaining_nodup
    have hmem := h.remaining_mem
    rw [hidle] at hnodup hmem
    exact { h with halting := nofun, remaining_nodup := hnodup, remaining_mem := hmem }

theorem Owned.accept (h : s.Owned) {seen : Bool} (hstep : s.accept seen = some s') : s'.Owned := by
  obtain ⟨-, hstep⟩ := Option.ite_none_right_eq_some.mp hstep
  obtain rfl := Option.some.inj hstep
  have hnodes : s.next_node ∉ s.nodes := fun hx => Nat.lt_irrefl _ (h.nodes_lt _ hx)
  have hdeleted : s.next_node ∉ s.deleted := fun hx => Nat.lt_irrefl _ (h.deleted_lt _ hx)
  have hremaining : s.next_node ∉ s.halt_loop.remaining s.nodes :=
    fun hx => hnodes (h.remaining_mem _ hx).1
  have hmem {x : Nat} (hx : x ∈ s.halt_loop.remaining s.nodes) :
      x ∈ s.nodes ++ [s.next_node] ∧ x ∉ s.deleted :=
    ⟨List.mem_append_left _ (h.remaining_mem x hx).1, (h.remaining_mem x hx).2⟩
  refine { h with
    nodes_nodup := List.concat_eq_append ▸ h.nodes_nodup.concat hnodes
    nodes_lt := forall_mem_concat (fun x hx => Nat.lt_succ_of_lt (h.nodes_lt x hx)) (Nat.lt_succ_self _)
    deleted_lt := fun x hx => Nat.lt_succ_of_lt (h.deleted_lt x hx)
    halting := fun hhalting => ?_
    remaining_nodup := ?_
    remaining_mem := fun x hx => ?_ }
  · have hidle := h.halting hhalting
    simp only [hidle, HaltLoop.insert]
  · rcases s.halt_loop.remaining_insert s.nodes s.next_node seen with heq | heq
    · rw [heq, ← List.concat_eq_append]
      exact h.remaining_nodup.concat hremaining
    · rw [heq]
      exact h.remaining_nodup
  · rcases s.halt_loop.remaining_insert s.nodes s.next_node seen with heq | heq
    · rw [heq] at hx
      rcases List.mem_append.mp hx with hx | hx
      · exact hmem hx
      · obtain rfl := List.mem_singleton.mp hx
        exact ⟨List.mem_append_right _ hx, hdeleted⟩
    · rw [heq] at hx
      exact hmem hx

-- The deletion of a node that lives and of which the loop will not dispose again.
theorem Owned.delete (h : s.Owned) {x : Nat} (hlive : x ∉ s.deleted)
    (hremaining : x ∉ s.halt_loop.remaining s.nodes) (hx : x < s.next_node) : (s.delete x).Owned := by
  have hdeleted : (s.deleted ++ [x]).Nodup := List.concat_eq_append ▸ h.deleted.concat hlive
  refine { h with
    deleted := hdeleted
    deleted_lt := forall_mem_concat h.deleted_lt hx
    remaining_mem := fun y hy => ⟨(h.remaining_mem y hy).1, fun hmem => ?_⟩ }
  rcases List.mem_append.mp hmem with hmem | hmem
  · exact (h.remaining_mem y hy).2 hmem
  · exact hremaining (List.mem_singleton.mp hmem ▸ hy)

theorem Owned.erase (h : s.Owned) (hloop : s.halt_loop.iterates = false) (i x node : Nat) :
    (s.erase i x node).Owned := by
  have hremaining :
      s.halt_loop.remaining (s.nodes.erase node) = (s.halt_loop.remaining s.nodes).erase node := by
    cases hstage : s.halt_loop with
    | iterating => exact absurd (hstage ▸ hloop) nofun
    | _ => rfl
  refine { h with
    torn := by rw [NodeServer.erase, h.torn, hloop]; rfl
    nodes_nodup := h.nodes_nodup.erase node
    nodes_lt := fun y hy => h.nodes_lt y (List.mem_of_mem_erase hy)
    remaining_nodup := hremaining ▸ h.remaining_nodup.erase node
    remaining_mem := fun y hy => ?_ }
  obtain ⟨hne, hy⟩ := h.remaining_nodup.mem_erase_iff.mp (hremaining ▸ hy)
  exact ⟨(List.mem_erase_of_ne hne).mpr (h.remaining_mem y hy).1, (h.remaining_mem y hy).2⟩

theorem Owned.handler (h : s.Owned) (hcaptured : s.Captured) {i x node : Nat}
    (hallowed : s.HandlesAlive (.handler i)) (hnode : s.node = some node) :
    ((s.erase i x node).delete node).Owned := by
  obtain ⟨hlive, hloop⟩ := hallowed
  have herased := h.erase hloop i x node
  refine herased.delete (hlive node hnode) (fun hmem => ?_) ?_
  · exact h.nodes_nodup.not_mem_erase (herased.remaining_mem node hmem).1
  · rcases hcaptured node hnode with hmem | hmem
    · exact h.nodes_lt node hmem
    · exact h.deleted_lt node hmem

theorem Owned.halt_node (h : s.Owned) {x : Nat} {rest : List Nat}
    (hloop : s.halt_loop = .iterating none rest) (hx : x ∈ rest) :
    ({ s with halt_loop := .iterating (some x) (rest.erase x) }.halt_node x).Owned := by
  have hnodup := h.remaining_nodup
  have hmem := h.remaining_mem
  have hhalting := h.halting
  rw [hloop] at hnodup hmem hhalting
  have hperm : (x :: rest.erase x).Perm rest := (List.perm_cons_erase hx).symm
  exact { h with
    halting := fun hfirst => absurd (hhalting hfirst) nofun
    remaining_nodup := hperm.nodup_iff.mpr hnodup
    remaining_mem := fun y hy => hmem y (hperm.mem_iff.mp hy) }

theorem Owned.halt_delete (h : s.Owned) {x : Nat} {rest : List Nat}
    (hloop : s.halt_loop = .iterating (some x) rest) :
    ({ s with halt_loop := .iterating none rest }.delete x).Owned := by
  have hnodup := h.remaining_nodup
  have hmem := h.remaining_mem
  have hhalting := h.halting
  rw [hloop] at hnodup hmem hhalting
  obtain ⟨hrest, hnodup⟩ := List.nodup_cons.mp hnodup
  obtain ⟨hx, hlive⟩ := hmem x List.mem_cons_self
  have hrests : { s with halt_loop := .iterating none rest }.Owned := { h with
    halting := fun hfirst => absurd (hhalting hfirst) nofun
    remaining_nodup := hnodup
    remaining_mem := fun y hy => hmem y (List.mem_cons_of_mem _ hy) }
  exact hrests.delete hlive hrest (h.nodes_lt x hx)

theorem Owned.step {e : ServerEvent} (h : s.Owned) (hcaptured : s.Captured)
    (hallowed : s.HandlesAlive e) (hstep : s.step e = some s') : s'.Owned := by
  cases step_steps hstep with
  | server_main | accept_failed | disconnect => exact { h with }
  | exit => exact { h.halt with }
  | accept => exact h.accept hstep
  | handler _ hnode => exact h.handler hcaptured hallowed hnode
  | halt => exact h.halt
  | halt_begin hloop =>
      have hremaining := h.remaining_mem
      rw [hloop] at hremaining
      exact { h with
        halting := fun hfirst => absurd (hloop ▸ h.halting hfirst) nofun
        remaining_nodup := h.nodes_nodup
        remaining_mem := hremaining }
  | halt_node hloop hx => exact h.halt_node hloop hx
  | halt_delete hloop => exact h.halt_delete hloop
  | halt_end hloop =>
      exact { h with
        halting := fun hfirst => absurd (hloop ▸ h.halting hfirst) nofun
        remaining_nodup := .nil
        remaining_mem := nofun }

theorem Captured.step {e : ServerEvent} (h : s.Captured) (hstep : s.step e = some s') :
    s'.Captured := by
  have hhalt : s.halt.Captured := by
    unfold NodeServer.halt
    split <;> exact h
  cases step_steps hstep with
  | exit | halt => exact hhalt
  | accept =>
      intro x hx
      obtain rfl := Option.some.inj hx
      exact .inl (List.mem_append_right _ List.mem_cons_self)
  | handler _ hnode =>
      intro x hx
      obtain rfl := Option.some.inj (hnode.symm.trans hx)
      exact .inr (List.mem_append_right _ List.mem_cons_self)
  | halt_delete => exact fun x hx => (h x hx).imp_right (List.mem_append_left _)
  | _ => exact h

-- A handler that finds the node dead deletes it again. In the loop, it takes the node out of
-- the set, where that still has it.
theorem not_disposed {e : ServerEvent} (hcaptured : s.Captured) (hallowed : ¬s.HandlesAlive e)
    (hstep : s.step e = some s') : ¬s'.Disposed := by
  intro hdisposed
  cases step_steps hstep with
  | @handler i x node _ hnode =>
      have hnodup : (s.deleted ++ [node]).Nodup := hdisposed.deleted
      have hlive : node ∉ s.deleted :=
        fun hmem => (List.nodup_append.mp hnodup).2.2 node hmem node List.mem_cons_self rfl
      have htorn : (s.torn || (s.halt_loop.iterates && decide (node ∈ s.nodes))) = false := hdisposed.torn
      rw [decide_eq_true ((hcaptured node hnode).resolve_right hlive), Bool.and_true,
        Bool.or_eq_false_iff] at htorn
      refine hallowed ⟨fun y hy => ?_, htorn.2⟩
      obtain rfl := Option.some.inj (hnode.symm.trans hy)
      exact hlive
  | _ => exact hallowed trivial

theorem make_owned (n cum : Nat) : (make n cum).Owned where
  deleted := .nil
  torn := rfl
  nodes_nodup := .nil
  nodes_lt := nofun
  deleted_lt := nofun
  halting _ := rfl
  remaining_nodup := .nil
  remaining_mem := nofun

structure Tracked (s : NodeServer) : Prop where
  owned : s.Owned
  captured : s.Captured

theorem Tracked.step {e : ServerEvent} (h : s.Tracked) (hallowed : s.HandlesAlive e)
    (hstep : s.step e = some s') : s'.Tracked :=
  ⟨h.owned.step h.captured hallowed hstep, h.captured.step hstep⟩

-- Each node is deleted once at the most, and the loop of halt() goes over a set that nobody
-- else changes, in the runs in which every handler finds the node alive that the variable has,
-- and that loop not under way, and in no others.
theorem disposed_throughout_iff (n cum m : Nat)
    (hrun : Run step Always { make n cum with max_simultaneous_connections := m } trace t) :
    Throughout Disposed step { make n cum with max_simultaneous_connections := m } trace ↔
      Run step HandlesAlive { make n cum with max_simultaneous_connections := m } trace t :=
  hrun.throughout_iff ⟨{ make_owned n cum with }, nofun⟩ (fun hinv => hinv.owned.toDisposed)
    Tracked.step fun hinv => not_disposed hinv.captured

-- A client comes, and the server is halted.
def shutdown : List ServerEvent :=
  [.server_main, .server_main, .accept true, .halt, .halt_begin, .halt_node 0]

theorem shutdown_disposed :
    ∃ t, Run step Always (make 0 0) (shutdown ++ [.halt_delete, .halt_end]) t ∧
      Throughout Disposed step (make 0 0) (shutdown ++ [.halt_delete, .halt_end]) := by
  have hrun : Run step HandlesAlive (make 0 0) (shutdown ++ [.halt_delete, .halt_end]) _ :=
    .of_foldlM rfl
  exact ⟨_, hrun.always, (disposed_throughout_iff 0 0 0 hrun.always).mpr hrun⟩

-- The handler that node->halt() has posted runs before the delete, or after it.
theorem shutdown_not_disposed :
    (∃ t, Run step Always (make 0 0) (shutdown ++ [.handler 0]) t ∧
      t.torn = true ∧ ¬t.Disposed) ∧
    ∃ t, Run step Always (make 0 0) (shutdown ++ [.halt_delete, .handler 0]) t ∧
      t.deleted = [0, 0] ∧ ¬t.Disposed :=
  ⟨⟨_, .of_foldlM rfl, rfl, fun h => absurd h.torn (by decide)⟩,
    ⟨_, .of_foldlM rfl, rfl, fun h => absurd h.deleted (by decide)⟩⟩

end NodeServer

end RoboCrisp.Comms
