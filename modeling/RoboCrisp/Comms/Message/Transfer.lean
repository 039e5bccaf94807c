import Mathlib.Logic.Function.Basic
import RoboCrisp.Comms.BasicNode.Resync
import RoboCrisp.Comms.Message.Forward

namespace RoboCrisp.Comms

open RoboCrisp.Stream RoboCrisp.Util

-- How a message gets into an object: that is made as a copy of the one that has it, made by moving
-- it, or assigned it by a move.
inductive Transfer (ι : Type)
  | copy (i : ι)
  | move (i : ι)
  | move_assign (i : ι)
deriving DecidableEq

namespace Transfer

variable {ι : Type} {chain : List (Transfer ι)}

def moves : Transfer ι → Bool
  | .move _ => true
  | _ => false

theorem moves_eq_false (hany : chain.any moves = false) : ∀ t ∈ chain, t.moves = false := by
  simpa only [List.any_eq_false, Bool.not_eq_true] using hany

theorem not_forall_moves (hany : chain.any moves = true) : ¬∀ t ∈ chain, t.moves = false := by
  obtain ⟨t, ht, hmoves⟩ := List.any_eq_true.mp hany
  intro hnone
  rw [hnone t ht] at hmoves
  cases hmoves

end Transfer

namespace BasicNode

-- The end of a turn, when the message has been decoded.
def accept (mti : MessageTypeInfo) (m : Message) : Loop Bool := do
  let ok ← if mti.has_checksum then StateT.lift m.checksum_ok else pure true
  if ok then dispatch m else resync

theorem handle_eq_accept (mti : MessageTypeInfo) : handle mti = (do
    let s ← get
    let (m, _) ← StateT.lift (Message.decode (Cursor.ofList s.rdbuf))
    accept mti m) := rfl

end BasicNode

namespace Message

-- Message(Message&& m), and what it makes of m.
def moved (m : Message) : Message := { m with checksum := 0 }

def movedFrom (m : Message) : Message := { m with body := none }

-- All message objects, and the one that has the message in question. A constructor makes a new
-- object under the name of an old one, which goes away.
structure Objects (ι : Type) where
  message : ι → Message
  carrier : ι

variable {ι : Type} [DecidableEq ι]

open Function (update)

namespace Objects

def carried (s : Objects ι) : Message := s.message s.carrier

def transfer (s : Objects ι) : Transfer ι → Objects ι
  | .copy i => ⟨update s.message i s.carried, i⟩
  | .move i => ⟨update (update s.message s.carrier s.carried.movedFrom) i s.carried.moved, i⟩
  | .move_assign i => ⟨update (update s.message s.carrier s.carried.movedFrom) i s.carried, i⟩

def put (s : Objects ι) (m : Message) : Objects ι :=
  { s with message := update s.message s.carrier m }

@[simp] theorem carried_put (s : Objects ι) (m : Message) : (s.put m).carried = m :=
  Function.update_self ..

def transfers (s : Objects ι) (chain : List (Transfer ι)) : Objects ι := chain.foldl transfer s

end Objects

-- What a receiver can tell of a message.
structure Preserved (m m' : Message) : Prop where
  header : m'.header = m.header
  body : m'.body = m.body
  checksum : m'.checksum = m.checksum
  checksum_ok : m'.checksum_ok = m.checksum_ok
  accept : ∀ mti, BasicNode.accept mti m' = BasicNode.accept mti m

theorem preserved_self (m : Message) : Preserved m m := ⟨rfl, rfl, rfl, rfl, fun _ => rfl⟩

theorem moved_eq_self {m : Message} (hzero : m.checksum = 0) : m.moved = m := by
  rw [moved, ← hzero]

theorem preserved_moved_iff (m : Message) : Preserved m m.moved ↔ m.checksum = 0 := by
  constructor
  · intro h
    exact h.checksum.symm
  · intro hzero
    rw [moved_eq_self hzero]
    exact preserved_self m

-- What is computed is the same, and what it is compared with is gone.
theorem checksum_ok_moved {m : Message} {info : MessageTypeInfo}
    (hinfo : get_type_info m.header.type = some info) (hchecksum : info.has_checksum = true)
    (hok : m.checksum_ok = some true) (hne : m.checksum ≠ 0) : m.moved.checksum_ok = some false := by
  have hmoved : get_type_info m.moved.header.type = some info := hinfo
  have hsame : m.moved.compute_checksum = m.compute_checksum := rfl
  rw [checksum_ok, hinfo] at hok
  rw [checksum_ok, hmoved, hsame]
  simp only [Option.bind_eq_bind, Option.bind_some, if_pos hchecksum] at hok ⊢
  obtain ⟨checksum, hcompute, heq⟩ := Option.bind_eq_some_iff.mp hok
  have hsum : m.checksum = checksum := by simpa using heq
  rw [hcompute, ← hsum]
  simpa [moved] using hne.symm

namespace Objects

variable (s : Objects ι) (chain : List (Transfer ι))

theorem carried_transfer (t : Transfer ι) :
    (s.transfer t).carried = if t.moves then s.carried.moved else s.carried := by
  cases t with
  | copy i => exact Function.update_self ..
  | move i => exact Function.update_self ..
  | move_assign i => exact Function.update_self ..

theorem carried_transfers :
    (s.transfers chain).carried = if chain.any Transfer.moves then s.carried.moved else s.carried := by
  induction chain generalizing s with
  | nil => rfl
  | cons t chain ih =>
      change ((s.transfer t).transfers chain).carried = _
      rw [ih, carried_transfer, List.any_cons]
      cases t.moves <;> cases chain.any Transfer.moves <;> rfl

-- The field of the checksum is lost to every move construction, and to nothing else.
theorem preserved_iff : Preserved s.carried (s.transfers chain).carried ↔
    (∀ t ∈ chain, t.moves = false) ∨ s.carried.checksum = 0 := by
  rw [carried_transfers]
  cases hany : chain.any Transfer.moves with
  | false => exact iff_of_true (preserved_self _) (Or.inl (Transfer.moves_eq_false hany))
  | true => rw [if_pos rfl, preserved_moved_iff, or_iff_right (Transfer.not_forall_moves hany)]

-- The checksum of an ERROR without a text is not zero.
theorem blank_not_preserved : (∃ buf, decode (Cursor.ofList (Frame.blank.wire ++ [])) =
      some (Frame.blank.message, buf)) ∧
    Frame.blank.message.checksum_ok = some true ∧
    Frame.blank.message.moved.checksum_ok = some false ∧
    ¬∀ (s : Objects Nat) (chain : List (Transfer Nat)),
      Preserved s.carried (s.transfers chain).carried := by
  have hne : Frame.blank.message.checksum ≠ 0 := by decide +kernel
  obtain ⟨ok, hok, hiff⟩ := Frame.blank.checksum_ok_eq
  rw [hiff.mpr fun _ => rfl] at hok
  refine ⟨Frame.blank.decode_eq [], hok, checksum_ok_moved Frame.blank.known rfl hok hne, fun h => ?_⟩
  have hmoved := h ⟨fun _ => Frame.blank.message, 0⟩ [.move 1]
  exact hne ((preserved_moved_iff _).mp hmoved)

end Objects

end Message

namespace BasicNode

open Message Message.Objects

variable {ι : Type} [DecidableEq ι] {r : LoopState}

theorem accept_eq {mti : MessageTypeInfo} {m : Message} (ok : Bool)
    (hok : (if mti.has_checksum then m.checksum_ok else some true) = some ok) :
    accept mti m r = if ok then dispatch m r else resync r := checked_eq hok

theorem resyncs_resync {more : Bool} {r' : LoopState} (h : resync r = some (more, r')) :
    r'.resyncs = r.resyncs + 1 := by
  rw [resync_eq] at h
  split at h <;> cases h <;> rfl

theorem resync_ne_dispatch (m : Message) : resync r ≠ dispatch m r := by
  intro h
  have hresyncs := resyncs_resync (h.trans (dispatch_eq m))
  exact absurd hresyncs (Nat.ne_of_lt (Nat.lt_succ_self _))

-- The end of a turn when what decode returns goes through `chain` on its way into the variable of
-- the loop.
def handle_through (s : Objects ι) (chain : List (Transfer ι)) (mti : MessageTypeInfo) :
    Loop Bool := do
  let r ← get
  let (m, _) ← StateT.lift (Message.decode (Cursor.ofList r.rdbuf))
  accept mti ((s.put m).transfers chain).carried

-- A frame that has arrived intact is accepted, unless a move on the way takes a checksum from it
-- that is not zero.
theorem handle_through_eq_iff (f : Frame) (hintact : f.Intact) {back : Bytes}
    (hrdbuf : r.rdbuf = f.wire ++ back) (s : Objects ι) (chain : List (Transfer ι)) :
    handle_through s chain f.info r = handle f.info r ↔
      (∀ t ∈ chain, t.moves = false) ∨ f.checksum = 0 := by
  obtain ⟨buf, hdecode⟩ := f.decode_eq back
  rw [← hrdbuf] at hdecode
  have hthrough : handle_through s chain f.info r =
      accept f.info ((s.put f.message).transfers chain).carried r := by
    rw [handle_through, get_bind_apply, hdecode]
    rfl
  have hhandle : handle f.info r = accept f.info f.message r := by
    rw [handle_eq_accept, get_bind_apply, hdecode]
    rfl
  rw [hthrough, hhandle, carried_transfers, carried_put]
  cases hany : chain.any Transfer.moves with
  | false => exact iff_of_true rfl (Or.inl (Transfer.moves_eq_false hany))
  | true =>
      rw [if_pos rfl, or_iff_right (Transfer.not_forall_moves hany)]
      constructor
      · intro heq
        by_contra hne
        have hchecksum : f.info.has_checksum = true := by
          by_contra hnone
          exact hne (f.no_checksum (by simpa using hnone))
        obtain ⟨ok, hok, hiff⟩ := f.checksum_ok_eq
        rw [hiff.mpr hintact] at hok
        have hlost := checksum_ok_moved (m := f.message) f.known hchecksum hok hne
        rw [accept_eq false (by rw [if_pos hchecksum, hlost]),
          accept_eq true (by rw [if_pos hchecksum, hok]), if_neg (by decide),
          if_pos rfl] at heq
        exact resync_ne_dispatch _ heq
      · intro hzero
        rw [moved_eq_self (m := f.message) hzero]

end BasicNode

end RoboCrisp.Comms
