import RoboCrisp.Comms.NodeServer

namespace RoboCrisp.Comms

open RoboCrisp.Transition

namespace NodeServer

variable {s s' t : NodeServer} {trace : List ServerEvent}

-- The steps of a server that nobody halts before its last node is gone.
def serve (s : NodeServer) : ServerEvent → Option NodeServer
  | .halt | .halt_begin | .halt_node _ | .halt_delete | .halt_end => none
  | e => s.step e

-- The handlers have deleted the nodes that they were connected to, one each and in that order,
-- and those are missing from the set and no others. What has not disconnected is there.
structure Faithful (s : NodeServer) : Prop where
  deleted : s.deleted = s.handled
  nodes : ∀ x, x ∈ s.nodes ↔ x < s.next_node ∧ x ∉ s.handled
  connected : ∀ x, x < s.next_node → x ∉ s.emitted → x ∈ s.nodes ∧ x ∉ s.deleted

-- A handler runs before another node takes the place of its own in the variable.
def HandlesLast (s : NodeServer) : ServerEvent → Prop
  | .handler i => ∀ x, s.io_service[i]? = some x → s.node = some x
  | _ => True

instance (s : NodeServer) : (e : ServerEvent) → Decidable (s.HandlesLast e)
  | .handler i => inferInstanceAs (Decidable (∀ x ∈ s.io_service[i]?, s.node = some x))
  | .server_main | .accept _ | .accept_failed | .disconnect _ | .halt | .halt_begin | .halt_node _
  | .halt_delete | .halt_end => .isTrue trivial

structure Serving (s : NodeServer) : Prop extends Faithful s where
  nodup : s.nodes.Nodup
  handled_emitted : ∀ x ∈ s.handled, x ∈ s.emitted
  io_service_emitted : ∀ x ∈ s.io_service, x ∈ s.emitted
  emitted_lt : ∀ x ∈ s.emitted, x < s.next_node

theorem Serving.halt (h : s.Serving) : s.halt.Serving := by
  unfold NodeServer.halt
  split
  · exact h
  · exact { h with }

theorem Serving.accept (h : s.Serving) {seen : Bool} (hstep : s.accept seen = some s') :
    s'.Serving := by
  obtain ⟨-, hstep⟩ := Option.ite_none_right_eq_some.mp hstep
  obtain rfl := Option.some.inj hstep
  have hemitted : s.next_node ∉ s.emitted := fun hx => Nat.lt_irrefl _ (h.emitted_lt _ hx)
  have hhandled : s.next_node ∉ s.handled := fun hx => hemitted (h.handled_emitted _ hx)
  have hnodes : s.next_node ∉ s.nodes := fun hx => Nat.lt_irrefl _ ((h.nodes _).mp hx).1
  have hset (x : Nat) : x ∈ s.nodes ++ [s.next_node] ↔ x < s.next_node + 1 ∧ x ∉ s.handled := by
    rw [List.mem_append, List.mem_singleton, h.nodes, Nat.lt_succ_iff_lt_or_eq]
    constructor
    · rintro (⟨hx, hmem⟩ | rfl)
      · exact ⟨.inl hx, hmem⟩
      · exact ⟨.inr rfl, hhandled⟩
    · rintro ⟨hx | rfl, hmem⟩
      · exact .inl ⟨hx, hmem⟩
      · exact .inr rfl
  refine { h with
    nodes := hset
    connected := fun x hx hfirst => ?_
    nodup := List.concat_eq_append ▸ h.nodup.concat hnodes
    emitted_lt := fun x hx => Nat.lt_succ_of_lt (h.emitted_lt x hx) }
  have hmem : x ∉ s.handled := fun hx => hfirst (h.handled_emitted x hx)
  exact ⟨(hset x).mpr ⟨hx, hmem⟩, h.deleted ▸ hmem⟩

theorem Serving.disconnect (h : s.Serving) {x : Nat} (hx : x < s.next_node) :
    (s.halt_node x).Serving := by
  refine { h with
    connected := fun y hy hfirst => ?_
    handled_emitted := fun y hy => mem_emitted_halt_node.mpr (.inl (h.handled_emitted y hy))
    io_service_emitted := fun y hy => ?_
    emitted_lt := fun y hy => ?_ }
  · exact h.connected y hy fun hmem => hfirst (mem_emitted_halt_node.mpr (.inl hmem))
  · rcases mem_io_service_halt_node hy with hy | rfl
    · exact mem_emitted_halt_node.mpr (.inl (h.io_service_emitted y hy))
    · exact mem_emitted_halt_node.mpr (.inr rfl)
  · rcases mem_emitted_halt_node.mp hy with hy | rfl
    · exact h.emitted_lt y hy
    · exact hx

theorem Serving.handler (h : s.Serving) {i x : Nat} (hx : s.io_service[i]? = some x) :
    ((s.erase i x x).delete x).Serving := by
  have hemitted : x ∈ s.emitted := h.io_service_emitted x (List.mem_of_getElem? hx)
  have hset (y : Nat) : y ∈ s.nodes.erase x ↔ y < s.next_node ∧ y ∉ s.handled ++ [x] := by
    rw [h.nodup.mem_erase_iff, h.nodes, List.mem_append, List.mem_singleton, not_or]
    tauto
  have hshared : ∀ y ∈ s.handled ++ [x], y ∈ s.emitted :=
    forall_mem_concat h.handled_emitted hemitted
  have hdeleted : s.deleted ++ [x] = s.handled ++ [x] := by rw [h.deleted]
  rw [delete_of_mem (by exact hemitted)]
  exact { h with
    deleted := hdeleted
    nodes := hset
    connected := fun y hy hfirst =>
      have hmem : y ∉ s.handled ++ [x] := fun hy => hfirst (hshared y hy)
      ⟨(hset y).mpr ⟨hy, hmem⟩, hdeleted ▸ hmem⟩
    nodup := h.nodup.erase x
    handled_emitted := hshared
    io_service_emitted := fun y hy => h.io_service_emitted y (List.mem_of_mem_eraseIdx hy) }

theorem serve_step {e : ServerEvent} (hstep : s.serve e = some s') : s.step e = some s' := by
  cases e <;> first | exact hstep | exact absurd hstep nofun

theorem Serving.step {e : ServerEvent} (h : s.Serving) (hallowed : s.HandlesLast e)
    (hstep : s.serve e = some s') : s'.Serving := by
  cases step_steps (serve_step hstep) with
  | server_main | accept_failed => exact { h with }
  | exit => exact { h.halt with }
  | accept => exact h.accept hstep
  | disconnect hx => exact h.disconnect hx
  | handler hx hnode =>
      obtain rfl := Option.some.inj ((hallowed _ hx).symm.trans hnode)
      exact h.handler hx
  | _ => exact absurd hstep nofun

-- A handler that runs later deletes another node than its own.
theorem Serving.not_faithful {e : ServerEvent} (h : s.Serving) (hallowed : ¬s.HandlesLast e)
    (hstep : s.serve e = some s') : ¬s'.Faithful := by
  intro hfaithful
  cases step_steps (serve_step hstep) with
  | handler hx hnode =>
      have hdeleted : s.deleted ++ [_] = s.handled ++ [_] := hfaithful.deleted
      rw [h.deleted] at hdeleted
      have hlast := List.singleton_inj.mp (List.append_cancel_left hdeleted)
      refine hallowed fun y hy => ?_
      rw [hnode, hlast, ← hx, hy]
  | _ => exact hallowed trivial

theorem make_serving (n cum : Nat) : (make n cum).Serving where
  deleted := rfl
  nodes _ := ⟨nofun, fun h => absurd h.1 (Nat.not_lt_zero _)⟩
  connected _ h := absurd h (Nat.not_lt_zero _)
  nodup := .nil
  handled_emitted := nofun
  io_service_emitted := nofun
  emitted_lt := nofun

-- Every disconnect removes the node that has disconnected, and no other, throughout a run in
-- which each handler runs while its node is the one that was accepted last, and in no other run.
theorem faithful_throughout_iff (n cum m : Nat)
    (hrun : Run serve Always { make n cum with max_simultaneous_connections := m } trace t) :
    Throughout Faithful serve { make n cum with max_simultaneous_connections := m } trace ↔
      Run serve HandlesLast { make n cum with max_simultaneous_connections := m } trace t :=
  hrun.throughout_iff { make_serving n cum with } Serving.toFaithful
    (fun hinv hallowed hstep => hinv.step hallowed hstep)
    fun hinv hallowed hstep => hinv.not_faithful hallowed hstep

-- The first client leaves, and nothing goes wrong until the second has come.
def arrivals : List ServerEvent :=
  [.server_main, .server_main, .accept true, .server_main, .disconnect 0]

theorem arrivals_faithful : ∃ t, Run serve Always (make 0 0) (arrivals ++ [.handler 0]) t ∧
    Throughout Faithful serve (make 0 0) (arrivals ++ [.handler 0]) := by
  have hrun : Run serve HandlesLast (make 0 0) (arrivals ++ [.handler 0]) _ := .of_foldlM rfl
  exact ⟨_, hrun.always, (faithful_throughout_iff 0 0 0 hrun.always).mpr hrun⟩

theorem arrivals_not_faithful :
    ∃ t, Run serve Always (make 0 0) (arrivals ++ [.accept true, .handler 0]) t ∧
      t.nodes = [0] ∧ t.handled = [0] ∧ t.deleted = [1] ∧ ¬t.Faithful :=
  ⟨_, .of_foldlM rfl, rfl, rfl, rfl, fun h => absurd h.deleted (by decide)⟩

end NodeServer

end RoboCrisp.Comms
