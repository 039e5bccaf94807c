import RoboCrisp.Comms.Node.Lemmas
import RoboCrisp.Comms.Message.RoundTrip
import RoboCrisp.Transition.Run

namespace RoboCrisp.Comms

open RoboCrisp.Stream RoboCrisp.Util RoboCrisp.Transition

namespace ModuleControl

variable {mc mc' : ModuleControl}

-- A call that leaves the message with its module.
def Op.Stays : Op → Prop
  | .reset _ => False
  | _ => True

-- What calls can make of ModuleControl(&m).
def BuiltFor (mc : ModuleControl) (m : Module) : Prop :=
  ∃ ops : List Op, (∀ op ∈ ops, op.Stays) ∧ ops.foldlM Op.run (forModule m) = some mc

theorem add_value_module_id {input : ModuleInput} {bit : BitVec 16}
    (h : mc.add_value input bit = some mc') : mc'.module_id = mc.module_id := by
  obtain ⟨pushed, -, h⟩ := Option.bind_eq_some_iff.mp h
  obtain ⟨sorted, -, h⟩ := Option.bind_eq_some_iff.mp h
  obtain rfl := Option.some.inj h
  rfl

theorem value_of_module_id {key : InputKey} {dv : Option Nat} (h : mc.value_of key = some (mc', dv)) :
    mc'.module_id = mc.module_id := by
  obtain ⟨resolved, -, h⟩ := Option.bind_eq_some_iff.mp h
  cases resolved with
  | none =>
      obtain ⟨rfl, -⟩ := Prod.mk.inj (Option.some.inj h)
      rfl
  | some input =>
      obtain ⟨m, -, h⟩ := Option.bind_eq_some_iff.mp h
      obtain ⟨-, h⟩ := Option.ite_none_right_eq_some.mp h
      obtain ⟨bit, -, h⟩ := Option.bind_eq_some_iff.mp h
      have hlast : ∀ added : ModuleControl, (if added.input_ids &&& bit = 0 then none else do
          let pairs ← added.values.elems
          let found ← find_value input.input_id pairs
          return (added, found)) = some (mc', dv) → mc' = added := by
        intro added h
        obtain ⟨-, h⟩ := Option.ite_none_left_eq_some.mp h
        obtain ⟨pairs, -, h⟩ := Option.bind_eq_some_iff.mp h
        obtain ⟨found, -, h⟩ := Option.bind_eq_some_iff.mp h
        exact (Prod.mk.inj (Option.some.inj h)).1.symm
      split at h
      · obtain ⟨added, hadded, h⟩ := Option.bind_eq_some_iff.mp h
        rw [hlast added h]
        exact add_value_module_id hadded
      · obtain ⟨added, hadded, h⟩ := Option.bind_eq_some_iff.mp h
        rw [hlast added h, Option.some.inj hadded]

theorem set_module_id {key : InputKey} {value : Bytes} (h : mc.set key value = some mc') :
    mc'.module_id = mc.module_id := by
  obtain ⟨⟨after, dv⟩, hvalue, h⟩ := Option.bind_eq_some_iff.mp h
  refine Eq.trans ?_ (value_of_module_id hvalue)
  cases dv with
  | none =>
      obtain rfl := Option.some.inj h
      rfl
  | some i =>
      obtain ⟨pair, -, h⟩ := Option.bind_eq_some_iff.mp h
      obtain ⟨value, -, h⟩ := Option.bind_eq_some_iff.mp h
      obtain ⟨values, -, h⟩ := Option.bind_eq_some_iff.mp h
      obtain rfl := Option.some.inj h
      rfl

theorem get_module_id {key : InputKey} {size : Nat} (h : mc.get key size = some mc') :
    mc'.module_id = mc.module_id := by
  obtain ⟨⟨after, dv⟩, hvalue, h⟩ := Option.bind_eq_some_iff.mp h
  refine Eq.trans ?_ (value_of_module_id hvalue)
  cases dv with
  | none =>
      obtain rfl := Option.some.inj h
      rfl
  | some i =>
      obtain ⟨pair, -, h⟩ := Option.bind_eq_some_iff.mp h
      obtain ⟨value, -, h⟩ := Option.bind_eq_some_iff.mp h
      cases key with
      | name name =>
          obtain rfl := Option.some.inj h
          rfl
      | input input =>
          simp only at h
          split at h
          · obtain rfl := Option.some.inj h
            rfl
          · obtain ⟨values, -, h⟩ := Option.bind_eq_some_iff.mp h
            obtain rfl := Option.some.inj h
            rfl

theorem clear_module_id {key : InputKey} (h : mc.clear key = some mc') :
    mc'.module_id = mc.module_id := by
  obtain ⟨-, h⟩ := Option.ite_none_right_eq_some.mp h
  obtain ⟨resolved, -, h⟩ := Option.bind_eq_some_iff.mp h
  cases resolved with
  | none =>
      obtain rfl := Option.some.inj h
      rfl
  | some input =>
      obtain ⟨bit, -, h⟩ := Option.bind_eq_some_iff.mp h
      obtain rfl := Option.some.inj h
      rfl

theorem Op.run_module_id {op : Op} (hstays : op.Stays) (h : op.run mc = some mc') :
    mc'.module_id = mc.module_id := by
  cases op with
  | set key value => exact set_module_id h
  | get key size => exact get_module_id h
  | value_for key =>
      obtain ⟨⟨after, dv⟩, hvalue, h⟩ := Option.bind_eq_some_iff.mp h
      obtain rfl := Option.some.inj h
      exact value_of_module_id hvalue
  | clear key => exact clear_module_id h
  | reset m => exact absurd hstays id

theorem BuiltFor.module_id {m : Module} (h : mc.BuiltFor m) : mc.module_id = m.id := by
  obtain ⟨ops, hstays, hrun⟩ := h
  have hall : ∀ (ops : List Op) (start : ModuleControl), (∀ op ∈ ops, op.Stays) →
      ops.foldlM Op.run start = some mc → mc.module_id = start.module_id := by
    intro ops
    induction ops with
    | nil =>
        intro start _ hrun
        rw [Option.some.inj hrun]
    | cons op ops ih =>
        intro start hstays hrun
        rw [List.foldlM_cons] at hrun
        obtain ⟨middle, hmiddle, hrun⟩ := Option.bind_eq_some_iff.mp hrun
        rw [ih middle (fun op hop => hstays op (List.mem_cons_of_mem _ hop)) hrun,
          Op.run_module_id (hstays op List.mem_cons_self) hmiddle]
  exact hall ops (forModule m) hstays hrun

theorem get_encoded_size_ge {size : Nat} (h : mc.get_encoded_size = some size) : HeaderSize ≤ size := by
  have hall : ∀ (ids : List Nat) (start : Nat), ids.foldlM (fun out i => do
      let pair ← mc.values.get i
      return out + pair.value.get_encoded_size) start = some size → start ≤ size := by
    intro ids
    induction ids with
    | nil =>
        intro start h
        exact le_of_eq (Option.some.inj h)
    | cons i ids ih =>
        intro start h
        rw [List.foldlM_cons] at h
        obtain ⟨next, hnext, h⟩ := Option.bind_eq_some_iff.mp h
        obtain ⟨pair, -, hnext⟩ := Option.bind_eq_some_iff.mp hnext
        have hmore := ih next h
        have hadded := Option.some.inj hnext
        omega
  exact hall _ HeaderSize h

theorem encode_values_appends (values : SArray ValuePair) (ids : List Nat) :
    Encoder.Appends (encode_values values ids) := by
  induction ids with
  | nil => exact Encoder.Appends.pure _
  | cons i ids ih =>
      refine Encoder.Appends.lift_bind fun pair => Encoder.Appends.bind ?_ fun r => ?_
      · exact Encoder.Appends.lift_bind fun bytes => Encoder.Appends.write bytes
      · split
        · exact Encoder.Appends.pure r
        · exact ih

-- The body of a message begins with the header, whatever becomes of the values.
theorem body_of_ofBody {m : Message} (h : Message.ofBody (.module_control mc) = some m) :
    ∃ back, m.body = some (mc.header ++ back) := by
  rw [Message.ofBody] at h
  obtain ⟨info, -, h⟩ := Option.bind_eq_some_iff.mp h
  obtain ⟨size, hsize, h⟩ := Option.bind_eq_some_iff.mp h
  obtain ⟨⟨r, eb⟩, hencode, h⟩ := Option.bind_eq_some_iff.mp h
  obtain ⟨body, hload, h⟩ := Option.bind_eq_some_iff.mp h
  obtain ⟨checksum, -, h⟩ := Option.bind_eq_some_iff.mp h
  obtain rfl := Option.some.inj h
  have hge := get_encoded_size_ge hsize
  have hfree : mc.header.length ≤ (MemoryEncodeBuffer.alloc size).free := by
    rw [Sink.free_eq, length_header]
    exact le_trans hge (le_of_eq List.length_replicate.symm)
  have happends : Encoder.Appends (if mc.is_clear then return .SUCCESS
      else encode_values mc.values (List.range mc.get_num_values)) := by
    split
    · exact Encoder.Appends.pure _
    · exact encode_values_appends _ _
  have hheader : mc.header <+: eb.written := Encoder.Appends.after_write (fun _ => happends) hfree hencode
  have hdata : mc.header <+: eb.data := hheader.trans (List.prefix_append _ _)
  obtain ⟨-, hbody⟩ := Option.ite_none_right_eq_some.mp hload
  have hbody : mc.header <+: body := by
    rw [← Option.some.inj hbody]
    exact List.prefix_take_iff.mpr ⟨hdata, mc.length_header ▸ hge⟩
  obtain ⟨back, hback⟩ := hbody
  exact ⟨back, congrArg some hback.symm⟩

theorem withHeader_module (mc : ModuleControl) (bytes : Bytes) : (mc.withHeader bytes).module = mc.module := by
  cases bytes <;> rfl

theorem decode_tail_module [Heap] {config : Configuration} {buf last : DecodeBuffer} {r : DecodeResult}
    (h : mc.decode_tail config buf = some ((r, mc'), last)) : mc'.module = mc.module := by
  rw [decode_tail] at h
  split at h
  · obtain ⟨hout, -⟩ := Prod.mk.inj (pure_eq_some_iff.mp h)
    rw [← (Prod.mk.inj hout).2]
  · generalize (List.range 16).filter mc.input_ids.getLsbD = ids at h
    cases ids with
    | nil =>
        obtain ⟨hout, -⟩ := Prod.mk.inj (Option.some.inj h)
        rw [← (Prod.mk.inj hout).2]
    | cons i ids =>
        obtain ⟨m, _, -, h⟩ := bind_eq_some_iff.mp h
        obtain ⟨values, _, -, h⟩ := bind_eq_some_iff.mp h
        obtain ⟨hout, -⟩ := Prod.mk.inj (pure_eq_some_iff.mp h)
        rw [← (Prod.mk.inj hout).2]

-- The module of a decoded message is the one at the index in the first byte.
theorem decode_copy_module [Heap] {config : Configuration} {buf last : DecodeBuffer} {out : ModuleControl}
    (h : decode_copy config buf = some (out, last)) :
    ∃ id m, buf.rest.head? = some id ∧ config.modules.get id.toNat = some m ∧ out.module = some m := by
  obtain ⟨⟨r, decoded⟩, middle, hdecode, h⟩ := bind_eq_some_iff.mp h
  obtain ⟨rfl, -⟩ := Prod.mk.inj (pure_eq_some_iff.mp h)
  obtain ⟨_, _, hbuf, hdecode⟩ := bind_eq_some_iff.mp hdecode
  obtain ⟨rfl, rfl⟩ := Prod.mk.inj (Option.some.inj hbuf)
  obtain ⟨id, _, hid, hdecode⟩ := bind_eq_some_iff.mp hdecode
  obtain ⟨hid, rfl⟩ := lift_eq_some_iff.mp hid
  obtain ⟨m, _, hm, hdecode⟩ := bind_eq_some_iff.mp hdecode
  obtain ⟨hm, rfl⟩ := lift_eq_some_iff.mp hm
  obtain ⟨header, _, -, hdecode⟩ := bind_eq_some_iff.mp hdecode
  refine ⟨id, m, hid, hm, ?_⟩
  cases header with
  | none => exact decode_tail_module hdecode
  | some bytes => exact (decode_tail_module hdecode).trans (withHeader_module _ bytes)

end ModuleControl

namespace Node

variable {n n' : Node}

-- The configuration that the last CONFIGURATION_RESPONSE brought.
def received_configuration [Heap] (n : Node) : Option Configuration := do
  let m ← (n.dispatched.filter fun m => m.header.type = .CONFIGURATION_RESPONSE).getLast?
  m.as Configuration.decode_copy

-- The dispatch of the message as an outgoing one finds a module that is equal to `m` at the
-- index in the message, and decodes the message against that.
def DecodesAgainst [Heap] (n : Node) (mc : ModuleControl) (m : Module) : Prop :=
  ∃ own, n.configuration.modules.get mc.module_id.toNat = some own ∧ own.eq m = some true ∧
    ∀ message out, Message.ofBody (.module_control mc) = some message →
      message.as (ModuleControl.decode_copy n.configuration) = some out → out.module = some own

def Tracks [Heap] (n : Node) : Prop :=
  ∀ c, n.received_configuration = some c → n.configuration.eq c = some true ∧
    ∀ i m mc, c.modules.get i = some m → mc.BuiltFor m → n.DecodesAgainst mc m

-- The configuration is the node's to begin with, and has each module at the index of its id.
def HasFrom (own c : Configuration) : Prop :=
  own.eq c = some true ∧ ∀ i m, c.modules.get i = some m →
    ∃ m', own.modules.get m.id.toNat = some m' ∧ m'.eq m = some true

theorem step_configuration [Heap] {e : NodeEvent} (hstep : n.step e = some n') :
    n'.configuration = n.configuration := by
  cases step_effect hstep with
  | incoming_failed => exact (leave_loop_acts _).configuration
  | fetch_aborted => exact (leave_loop_acts _).configuration
  | write_error => exact (leave_loop_acts _).configuration
  | execute _ hrun =>
      obtain ⟨ms, hacts, -⟩ := run_job_acts hrun
      exact hacts.configuration
  | tick htick =>
      obtain ⟨ms, hacts, -⟩ := tick_acts htick
      exact hacts.configuration
  | halt on_worker force_try => exact (halt_acts n on_worker force_try).configuration
  | _ => rfl

theorem decodesAgainst_iff [Heap] {mc : ModuleControl} {m : Module} (h : mc.module_id = m.id) :
    n.DecodesAgainst mc m ↔ ∃ own, n.configuration.modules.get m.id.toNat = some own ∧ own.eq m = some true := by
  constructor
  · rintro ⟨own, hget, hsame, -⟩
    exact ⟨own, h ▸ hget, hsame⟩
  · rintro ⟨own, hget, hsame⟩
    refine ⟨own, h ▸ hget, hsame, fun message out hmessage hout => ?_⟩
    obtain ⟨back, hbody⟩ := ModuleControl.body_of_ofBody hmessage
    obtain ⟨body, hown, hout⟩ := Option.bind_eq_some_iff.mp hout
    obtain rfl := Option.some.inj (hbody.symm.trans hown)
    obtain ⟨⟨decoded, last⟩, hdecode, hout⟩ := Option.bind_eq_some_iff.mp hout
    obtain rfl := Option.some.inj hout
    obtain ⟨id, found, hid, hfound, hmodule⟩ := ModuleControl.decode_copy_module hdecode
    obtain rfl : mc.module_id = id := Option.some.inj hid
    rw [h, hget] at hfound
    rw [hmodule, hfound]

-- Nothing that a node does changes its configuration.
theorem tracks_iff [Heap] {version : UInt32} {configuration : Configuration} {trace : List NodeEvent}
    (hrun : Run step Always (make version .MASTER configuration) trace n) :
    n.Tracks ↔ ∀ c, n.received_configuration = some c → HasFrom configuration c := by
  have hown : n.configuration = configuration := hrun.constant step_configuration
  refine forall₂_congr fun c hc => ?_
  rw [HasFrom, hown]
  refine and_congr_right fun _ => ⟨fun hmodules i m hm => ?_, fun hmodules i m mc hm hbuilt => ?_⟩
  · have hbuilt : (ModuleControl.forModule m).BuiltFor m := ⟨[], fun _ hop => absurd hop List.not_mem_nil, rfl⟩
    rw [← hown]
    exact (decodesAgainst_iff rfl).mp (hmodules i m _ hm hbuilt)
  · rw [decodesAgainst_iff hbuilt.module_id, hown]
    exact hmodules i m hm

-- A master that starts with nothing gets the configuration of a slave.
def trailResponse : Message := (Message.ofBody (.configuration Body.trail)).get (by decide +kernel)

def trackTrace : List NodeEvent := launchEvents ++ [.incoming trailResponse, .dispatch_incoming]

def tracking : Node :=
  (trackTrace.foldlM (guarded (@step Heap.zeros) Always) (make 1 .MASTER (.empty 0))).get
    (by decide +kernel)

theorem tracking_run : Run (@step Heap.zeros) Always (make 1 .MASTER (.empty 0)) trackTrace tracking :=
  Run.of_foldlM (Option.some_get _).symm

theorem tracking_tracks_iff : @Tracks Heap.zeros tracking ↔
    ∀ c, @received_configuration Heap.zeros tracking = some c → HasFrom (.empty 0) c :=
  @tracks_iff _ Heap.zeros 1 (.empty 0) trackTrace tracking_run

def receivedTrail : Configuration := (@received_configuration Heap.zeros tracking).get (by decide +kernel)

def trailControl : Message :=
  (Message.ofBody (.module_control (.forModule Body.trailModule))).get (by decide +kernel)

-- Nor can it send anything to the module.
theorem tracking_not_tracks :
    Run (@step Heap.zeros) Always (make 1 .MASTER (.empty 0)) trackTrace tracking ∧
      ¬@Tracks Heap.zeros tracking ∧ @dispatch Heap.zeros tracking trailControl .OUTGOING = none := by
  refine ⟨tracking_run, fun htracks => ?_, by decide +kernel⟩
  have hsame := (htracks receivedTrail (Option.some_get _).symm).1
  exact absurd hsame (by decide +kernel)

end Node

end RoboCrisp.Comms
