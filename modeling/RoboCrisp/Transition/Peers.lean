import RoboCrisp.Transition.Run
import Mathlib.Logic.Function.Basic

namespace RoboCrisp.Transition

-- The ends of a connection.
inductive Side
  | A
  | B
deriving DecidableEq

def Side.other : Side → Side
  | .A => .B
  | .B => .A

@[simp] theorem Side.other_other (side : Side) : side.other.other = side := by cases side <;> rfl

-- What a party does by itself, the messages that it has put on the wire, in order, what a
-- message becomes on its way, and how a party takes it in.
structure Protocol (σ ε μ : Type) where
  step : σ → ε → Option σ
  wire : σ → List μ
  transmit : μ → Option μ
  receive : σ → μ → Option σ

-- `received` counts the messages that have come in from the other side.
structure Peers (σ : Type) where
  state : Side → σ
  received : Side → Nat

inductive PeerEvent (ε : Type)
  | own (side : Side) (e : ε)
  | deliver (side : Side)

namespace Peers

variable {σ ε μ : Type}

def start (state : Side → σ) : Peers σ := ⟨state, fun _ => 0⟩

-- Each message on the wire is delivered once, and in order.
def step (protocol : Protocol σ ε μ) (peers : Peers σ) : PeerEvent ε → Option (Peers σ)
  | .own side e => do
      let s ← protocol.step (peers.state side) e
      return { peers with state := Function.update peers.state side s }
  | .deliver side => do
      let m ← (protocol.wire (peers.state side.other))[peers.received side]?
      let m ← protocol.transmit m
      let s ← protocol.receive (peers.state side) m
      return {
        state := Function.update peers.state side s
        received := Function.update peers.received side (peers.received side + 1) }

-- The parties may do what is allowed to them, at any time.
def Allowed (Own : σ → ε → Prop) (peers : Peers σ) : PeerEvent ε → Prop
  | .own side e => Own (peers.state side) e
  | .deliver _ => True

instance (Own : σ → ε → Prop) [∀ s e, Decidable (Own s e)] (peers : Peers σ) (e : PeerEvent ε) :
    Decidable (Allowed Own peers e) := by
  cases e with
  | own side e => exact inferInstanceAs (Decidable (Own (peers.state side) e))
  | deliver side => exact inferInstanceAs (Decidable True)

variable {protocol : Protocol σ ε μ} {Own : σ → ε → Prop} {Inv : Side → σ → Prop}
  {trace : List (PeerEvent ε)} {peers last : Peers σ}

-- Each party is as its side wants it to be.
def Everywhere (Inv : Side → σ → Prop) (peers : Peers σ) : Prop := ∀ side, Inv side (peers.state side)

theorem Everywhere.update (h : Everywhere Inv peers) {side : Side} {s : σ} (hside : Inv side s)
    (received : Side → Nat) : Everywhere Inv ⟨Function.update peers.state side s, received⟩ := by
  intro other
  change Inv other (Function.update peers.state side s other)
  by_cases hother : other = side
  · subst hother
    rw [Function.update_self]
    exact hside
  · rw [Function.update_of_ne hother]
    exact h other

-- What each party keeps up by itself, and keeps up when it takes in what the other puts on
-- the wire as long as that one keeps it up, holds for both of them in every run.
theorem Everywhere.invariant (hstart : Everywhere Inv peers)
    (hrun : Run (step protocol) (Allowed Own) peers trace last)
    (hown : ∀ {side s s' e}, Inv side s → Own s e → protocol.step s e = some s' → Inv side s')
    (hdeliver : ∀ {side s s' peer m m'}, Inv side s → Inv side.other peer → m ∈ protocol.wire peer →
      protocol.transmit m = some m' → protocol.receive s m' = some s' → Inv side s') :
    Everywhere Inv last := by
  refine hrun.invariant hstart ?_
  intro current next e hinv hallowed hstep
  cases e with
  | own side e =>
      obtain ⟨s, hs, hnext⟩ := Option.bind_eq_some_iff.mp hstep
      obtain rfl := Option.some.inj hnext
      exact hinv.update (hown (hinv side) hallowed hs) _
  | deliver side =>
      obtain ⟨m, hm, hstep⟩ := Option.bind_eq_some_iff.mp hstep
      obtain ⟨m', htransmit, hstep⟩ := Option.bind_eq_some_iff.mp hstep
      obtain ⟨s, hs, hnext⟩ := Option.bind_eq_some_iff.mp hstep
      obtain rfl := Option.some.inj hnext
      have hwire := List.mem_of_getElem? hm
      exact hinv.update (hdeliver (hinv side) (hinv side.other) hwire htransmit hs) _

end Peers

end RoboCrisp.Transition
