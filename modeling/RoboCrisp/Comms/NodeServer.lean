import Mathlib.Algebra.GroupWithZero.Nat
import Mathlib.Data.List.Nodup
import RoboCrisp.Transition.Run

namespace RoboCrisp.Comms

open RoboCrisp.Transition

def SIZE_MAX : Nat := 2 ^ 64 - 1

-- The statement of server_main() that comes next: acceptor.listen(), the head of the loop, the
-- wait for a connection slot, async_accept(), the wait for the connections to close.
inductive MainStage
  | listen
  | loop
  | limited
  | accept
  | drain
  | exited
deriving DecidableEq

-- How far the call of halt() has got that found `halting` clear. In its loop there are the
-- node that has been halted and not yet deleted, and those that the iterator has not come to.
inductive HaltLoop
  | idle
  | entered
  | iterating (node : Option Nat) (rest : List Nat)
  | done
deriving DecidableEq

def HaltLoop.iterates : HaltLoop → Bool
  | .iterating _ _ => true
  | _ => false

def HaltLoop.insert (loop : HaltLoop) (x : Nat) (seen : Bool) : HaltLoop :=
  match loop with
  | .iterating node rest => .iterating node (if seen then rest ++ [x] else rest)
  | _ => loop

-- NodeServer. Nodes are given by numbers that stand for their addresses, and are not used
-- again. `node` is the storage of the variable of that name in the loop of server_main(), which
-- the disconnect handlers capture by reference. In the io_service there are those handlers,
-- given by the nodes that they were connected to. `emitted` has the nodes whose disconnect
-- signal has been emitted. The last three fields record what has happened: the nodes whose
-- handlers have run, the objects of the delete expressions, and whether a handler has erased
-- something from the set while the loop of halt() was under way.
structure NodeServer where
  nodes : List Nat
  node : Option Nat
  halting : Bool
  stopped : Bool
  max_simultaneous_connections : Nat
  max_cumulative_connections : Nat
  num_cumulative_connections : Nat
  server_main : MainStage
  halt_loop : HaltLoop
  io_service : List Nat
  next_node : Nat
  emitted : List Nat
  handled : List Nat
  deleted : List Nat
  torn : Bool
deriving DecidableEq

-- `seen` says whether an iterator over the set comes to the new element.
inductive ServerEvent
  | server_main
  | accept (seen : Bool)
  | accept_failed
  | disconnect (x : Nat)
  | handler (i : Nat)
  | halt
  | halt_begin
  | halt_node (x : Nat)
  | halt_delete
  | halt_end

namespace NodeServer

def make (_max_simultaneous_connections _max_cumulative_connections : Nat) : NodeServer where
  nodes := []
  node := none
  halting := false
  stopped := false
  max_simultaneous_connections := 0
  max_cumulative_connections := _max_cumulative_connections
  num_cumulative_connections := 0
  server_main := .listen
  halt_loop := .idle
  io_service := []
  next_node := 0
  emitted := []
  handled := []
  deleted := []
  torn := false

-- BasicNode::halt() emits the disconnect signal once, and the signal posts the handler.
def halt_node (s : NodeServer) (x : Nat) : NodeServer :=
  { s with
    emitted := if x ∈ s.emitted then s.emitted else s.emitted ++ [x]
    io_service := if x ∈ s.emitted then s.io_service else s.io_service ++ [x] }

-- delete, with the halt(true) of ~BasicNode()
def delete (s : NodeServer) (x : Nat) : NodeServer :=
  { s.halt_node x with deleted := s.deleted ++ [x] }

-- halt() up to its loop
def halt (s : NodeServer) : NodeServer :=
  if s.halting then s else { s with halting := true, stopped := true, halt_loop := .entered }

-- The condition of the loop of server_main()
def serves (s : NodeServer) : Prop :=
  (s.num_cumulative_connections < s.max_cumulative_connections ∨
    s.max_cumulative_connections = 0) ∧ ¬s.stopped

instance (s : NodeServer) : Decidable s.serves := inferInstanceAs (Decidable ((_ ∨ _) ∧ _))

-- The waits go on when the size of the set allows it. Behind the last one, the call of halt()
-- has nothing to iterate over.
def main_step (s : NodeServer) : Option NodeServer :=
  match s.server_main with
  | .listen =>
      some { s with
        max_cumulative_connections :=
          if s.max_cumulative_connections = 0 then SIZE_MAX else s.max_cumulative_connections
        server_main := .loop }
  | .loop =>
      if s.serves then
        if s.max_simultaneous_connections > 0 ∧ s.nodes.length > s.max_simultaneous_connections then
          some { s with server_main := .limited }
        else some { s with server_main := .accept }
      else some { s with server_main := .drain }
  | .limited =>
      if s.nodes.length ≥ s.max_simultaneous_connections then none
      else some { s with server_main := .accept }
  | .accept => none
  | .drain => if s.nodes.length > 0 then none else some { s.halt with server_main := .exited }
  | .exited => none

-- A client has connected. The block that follows is one step, up to the head of the loop.
def accept (s : NodeServer) (seen : Bool) : Option NodeServer :=
  if s.server_main = .accept then
    some { s with
      num_cumulative_connections := s.num_cumulative_connections + 1
      node := some s.next_node
      nodes := s.nodes ++ [s.next_node]
      next_node := s.next_node + 1
      halt_loop := s.halt_loop.insert s.next_node seen
      server_main := .loop }
  else none

-- A node that is alive halts itself.
def disconnect (s : NodeServer) (x : Nat) : Option NodeServer :=
  if x < s.next_node ∧ x ∉ s.deleted ∧ x ∉ s.emitted then some (s.halt_node x) else none

-- nodes.erase(node), in the handler that was connected to `x`
def erase (s : NodeServer) (i x node : Nat) : NodeServer :=
  { s with
    io_service := s.io_service.eraseIdx i
    handled := s.handled ++ [x]
    torn := s.torn || (s.halt_loop.iterates && decide (node ∈ s.nodes))
    nodes := s.nodes.erase node }

def handler (s : NodeServer) (i : Nat) : Option NodeServer := do
  let x ← s.io_service[i]?
  let node ← s.node
  return (s.erase i x node).delete node

-- A turn of the loop of halt(), whichever node comes next: first node->halt(), then the delete.
def halt_next (s : NodeServer) (x : Nat) : Option NodeServer :=
  match s.halt_loop with
  | .iterating none rest =>
      if x ∈ rest then some ({ s with halt_loop := .iterating (some x) (rest.erase x) }.halt_node x)
      else none
  | _ => none

def halt_delete (s : NodeServer) : Option NodeServer :=
  match s.halt_loop with
  | .iterating (some x) rest => some ({ s with halt_loop := .iterating none rest }.delete x)
  | _ => none

def step (s : NodeServer) : ServerEvent → Option NodeServer
  | .server_main => s.main_step
  | .accept seen => s.accept seen
  | .accept_failed => if s.server_main = .accept then some { s with server_main := .drain } else none
  | .disconnect x => s.disconnect x
  | .handler i => s.handler i
  | .halt => some s.halt
  | .halt_begin =>
      if s.halt_loop = .entered then some { s with halt_loop := .iterating none s.nodes } else none
  | .halt_node x => s.halt_next x
  | .halt_delete => s.halt_delete
  | .halt_end => if s.halt_loop = .iterating none [] then some { s with halt_loop := .done } else none

-- The limit as it is tested at the head of the loop, and behind the wait.
def Admits (s : NodeServer) : Prop :=
  (s.server_main = .loop ∧ s.serves ∧
    ¬(s.max_simultaneous_connections > 0 ∧ s.nodes.length > s.max_simultaneous_connections)) ∨
  (s.server_main = .limited ∧ s.nodes.length < s.max_simultaneous_connections)

-- What each step does, with what has let it happen.
inductive Steps (s : NodeServer) : ServerEvent → NodeServer → Prop
  | server_main (server_main : MainStage) (max_cumulative_connections : Nat)
      (hadmits : server_main = .accept → s.Admits) :
      Steps s .server_main { s with server_main, max_cumulative_connections }
  | exit (hnodes : s.nodes = []) : Steps s .server_main { s.halt with server_main := .exited }
  | accept {seen : Bool} (haccept : s.server_main = .accept) : Steps s (.accept seen) { s with
      num_cumulative_connections := s.num_cumulative_connections + 1
      node := some s.next_node
      nodes := s.nodes ++ [s.next_node]
      next_node := s.next_node + 1
      halt_loop := s.halt_loop.insert s.next_node seen
      server_main := .loop }
  | accept_failed : Steps s .accept_failed { s with server_main := .drain }
  | disconnect {x : Nat} (hx : x < s.next_node) (hlive : x ∉ s.deleted) (hfirst : x ∉ s.emitted) :
      Steps s (.disconnect x) (s.halt_node x)
  | handler {i x node : Nat} (hx : s.io_service[i]? = some x) (hnode : s.node = some node) :
      Steps s (.handler i) ((s.erase i x node).delete node)
  | halt : Steps s .halt s.halt
  | halt_begin (hloop : s.halt_loop = .entered) :
      Steps s .halt_begin { s with halt_loop := .iterating none s.nodes }
  | halt_node {x : Nat} {rest : List Nat} (hloop : s.halt_loop = .iterating none rest)
      (hx : x ∈ rest) :
      Steps s (.halt_node x) ({ s with halt_loop := .iterating (some x) (rest.erase x) }.halt_node x)
  | halt_delete {x : Nat} {rest : List Nat} (hloop : s.halt_loop = .iterating (some x) rest) :
      Steps s .halt_delete ({ s with halt_loop := .iterating none rest }.delete x)
  | halt_end (hloop : s.halt_loop = .iterating none []) :
      Steps s .halt_end { s with halt_loop := .done }

variable {s s' : NodeServer}

theorem main_step_steps (hstep : s.main_step = some s') : s.Steps .server_main s' := by
  unfold main_step at hstep
  split at hstep
  case h_1 =>
      obtain rfl := Option.some.inj hstep
      exact .server_main .loop _ nofun
  case h_2 hloop =>
      split at hstep
      · rename_i hserves
        split at hstep
        · obtain rfl := Option.some.inj hstep
          exact .server_main .limited _ nofun
        · rename_i hlimit
          obtain rfl := Option.some.inj hstep
          exact .server_main .accept _ fun _ => .inl ⟨hloop, hserves, hlimit⟩
      · obtain rfl := Option.some.inj hstep
        exact .server_main .drain _ nofun
  case h_3 hlimited =>
      obtain ⟨hlimit, hstep⟩ := Option.ite_none_left_eq_some.mp hstep
      obtain rfl := Option.some.inj hstep
      exact .server_main .accept _ fun _ => .inr ⟨hlimited, Nat.lt_of_not_le hlimit⟩
  case h_5 =>
      obtain ⟨hnodes, hstep⟩ := Option.ite_none_left_eq_some.mp hstep
      obtain rfl := Option.some.inj hstep
      exact .exit (List.eq_nil_of_length_eq_zero (Nat.eq_zero_of_not_pos hnodes))
  all_goals exact absurd hstep nofun

theorem step_steps {e : ServerEvent} (hstep : s.step e = some s') : s.Steps e s' := by
  cases e with
  | server_main => exact main_step_steps hstep
  | accept seen =>
      obtain ⟨haccept, hstep⟩ := Option.ite_none_right_eq_some.mp hstep
      obtain rfl := Option.some.inj hstep
      exact .accept haccept
  | accept_failed =>
      obtain ⟨-, hstep⟩ := Option.ite_none_right_eq_some.mp hstep
      obtain rfl := Option.some.inj hstep
      exact .accept_failed
  | disconnect x =>
      obtain ⟨⟨hx, hlive, hfirst⟩, hstep⟩ := Option.ite_none_right_eq_some.mp hstep
      obtain rfl := Option.some.inj hstep
      exact .disconnect hx hlive hfirst
  | handler i =>
      obtain ⟨x, hx, hstep⟩ := Option.bind_eq_some_iff.mp hstep
      obtain ⟨node, hnode, hstep⟩ := Option.bind_eq_some_iff.mp hstep
      obtain rfl := Option.some.inj hstep
      exact .handler hx hnode
  | halt =>
      obtain rfl := Option.some.inj hstep
      exact .halt
  | halt_begin =>
      obtain ⟨hloop, hstep⟩ := Option.ite_none_right_eq_some.mp hstep
      obtain rfl := Option.some.inj hstep
      exact .halt_begin hloop
  | halt_node x =>
      simp only [step, halt_next] at hstep
      split at hstep
      · obtain ⟨hx, hstep⟩ := Option.ite_none_right_eq_some.mp hstep
        obtain rfl := Option.some.inj hstep
        exact .halt_node ‹_› hx
      · exact absurd hstep nofun
  | halt_delete =>
      simp only [step, halt_delete] at hstep
      split at hstep
      · obtain rfl := Option.some.inj hstep
        exact .halt_delete ‹_›
      · exact absurd hstep nofun
  | halt_end =>
      obtain ⟨hloop, hstep⟩ := Option.ite_none_right_eq_some.mp hstep
      obtain rfl := Option.some.inj hstep
      exact .halt_end hloop

theorem delete_of_mem {x : Nat} (hx : x ∈ s.emitted) :
    s.delete x = { s with deleted := s.deleted ++ [x] } := by
  simp only [delete, halt_node, if_pos hx]

theorem mem_emitted_halt_node {x y : Nat} : y ∈ (s.halt_node x).emitted ↔ y ∈ s.emitted ∨ y = x := by
  by_cases hx : x ∈ s.emitted
  · simp only [halt_node, if_pos hx]
    exact ⟨.inl, fun h => h.elim id (· ▸ hx)⟩
  · simp [halt_node, hx]

theorem mem_io_service_halt_node {x y : Nat} (h : y ∈ (s.halt_node x).io_service) :
    y ∈ s.io_service ∨ y = x := by
  by_cases hx : x ∈ s.emitted
  · simp only [halt_node, if_pos hx] at h
    exact .inl h
  · simpa [halt_node, hx] using h

end NodeServer

end RoboCrisp.Comms
