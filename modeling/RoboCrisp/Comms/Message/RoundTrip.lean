import RoboCrisp.Comms.BasicNode.Framing
import RoboCrisp.Comms.Configuration.RoundTrip
import RoboCrisp.Comms.ModuleControl.Arrays

namespace RoboCrisp.Comms

open RoboCrisp.Stream RoboCrisp.Util

section Handshakes

theorem Handshake.length_bytes (hs : Handshake) : hs.bytes.length = 9 := by
  simp [Handshake.bytes]

theorem Handshake.ofBytes_bytes (hs : Handshake) : Handshake.ofBytes hs.bytes = hs := by
  obtain ⟨protocol, version, role⟩ := hs
  have htake : (Handshake.bytes ⟨protocol, version, role⟩).take 4 = littleEndian 4 protocol.toNat :=
    List.take_left' (length_littleEndian 4 _)
  have hdrop : (Handshake.bytes ⟨protocol, version, role⟩).drop 4 =
      littleEndian 4 version.toNat ++ [role.code] := List.drop_left' (length_littleEndian 4 _)
  have hversion : (littleEndian 4 version.toNat ++ [role.code]).take 4 =
      littleEndian 4 version.toNat := List.take_left' (length_littleEndian 4 _)
  have hlt : protocol.toNat < 256 ^ 4 := protocol.toNat_lt
  have hlt' : version.toNat < 256 ^ 4 := version.toNat_lt
  rw [Handshake.ofBytes, htake, hdrop, hversion, ofLittleEndian_littleEndian_of_lt hlt,
    ofLittleEndian_littleEndian_of_lt hlt', UInt32.ofNat_toNat, UInt32.ofNat_toNat]
  rfl

theorem Handshake.consumes_decode_copy (hs : Handshake) :
    Decoder.Consumes Handshake.decode_copy hs.bytes hs := by
  refine (Decoder.Consumes.read hs.length_bytes).bind_last ?_
  simp only [Handshake.ofBytes_bytes]
  exact Decoder.Consumes.pure hs

theorem HandshakeResponse.consumes_decode_copy [Heap] (hs : HandshakeResponse) :
    Decoder.Consumes HandshakeResponse.decode_copy hs.bytes hs :=
  (Decoder.Consumes.read rfl).bind_last (Decoder.Consumes.pure hs)

end Handshakes

theorem Message.eq_of_same {m o : Message} {checksum : UInt32} (hheader : m.header = o.header)
    (hbody : m.body = o.body) (h : o.compute_checksum = some checksum) : m.eq o = some true := by
  have hsame : m.compute_checksum = some checksum := by
    rw [← h, Message.compute_checksum, Message.compute_checksum, hheader, hbody]
  simp [Message.eq, hheader, hbody, hsame, h]

namespace Body

variable {config : Configuration} {b : Body} {m : Message} {bytes : Bytes}

-- A body that the library has put together. A control message belongs to a module of the
-- configuration, and is a clear message or carries a value for every input that it names.
def WellFormed (config : Configuration) : Body → Prop
  | .handshake _ => True
  | .handshake_response _ => True
  | .configuration c => c.Built DataDeclaration.Sound
  | .module_control mc => ∃ m inputs, config.modules.get mc.module_id.toNat = some m ∧
      m.Addressable inputs ∧ (mc.is_clear = true ∨ ∃ pairs, mc.Carries (Fitting inputs) pairs)

-- What as<T>() makes of the message that came in.
def Arrives [Heap] (config : Configuration) (received : Message) : Body → Prop
  | .handshake hs => ∃ out, received.as Handshake.decode_copy = some out ∧ out.eq hs = true
  | .handshake_response hs =>
      ∃ out, received.as HandshakeResponse.decode_copy = some out ∧ out.eq hs = true
  | .configuration c =>
      ∃ out, received.as Configuration.decode_copy = some out ∧ out.eq c = some true
  | .module_control mc =>
      ∃ out, received.as (ModuleControl.decode_copy config) = some out ∧ out.eq mc = some true

-- The message of the body is encoded in the announced size, and comes out of a decode of
-- that equal and intact, whatever follows it, with a body that is equal too.
def RoundTrips (config : Configuration) (b : Body) : Prop :=
  ∃ m bytes, Message.ofBody b = some m ∧ m.get_encoded_size = some bytes.length ∧
    bytes.length = Message.HeaderSize + m.header.length.toNat ∧
    (∀ buf : MemoryEncodeBuffer, bytes.length ≤ buf.free →
      m.encode buf = some (.SUCCESS, buf.append bytes)) ∧
    ∀ (buf : DecodeBuffer) (suffix : Bytes), buf.rest = bytes ++ suffix →
      ∃ received, Message.decode buf = some (received, buf.advance bytes.length) ∧
        received.eq m = some true ∧ received.checksum_ok = some true ∧
        ∀ heap : Heap, @Arrives heap config received b

-- No input that a control message carries a value for is an array.
def ArrayFree (config : Configuration) : Body → Prop
  | .module_control mc => ∀ m, config.modules.get mc.module_id.toNat = some m →
      ∀ i ∈ mc.carried, ∀ input, m.inputs.get i = some input →
        input.data_type.is_array = true → input.data_type.width.toNat = 0
  | _ => True

-- The bytes of the body, in the size that it announces.
def Encodes (b : Body) (bytes : Bytes) : Prop :=
  b.get_encoded_size = some bytes.length ∧ Stores b.encode bytes

theorem Encodes.exists_ofBody (h : b.Encodes bytes) :
    ∃ m, Message.ofBody b = some m ∧ m.body = some bytes := by
  obtain ⟨info, hknown, -⟩ := Message.get_type_info_body b
  have hencode : b.encode (MemoryEncodeBuffer.alloc bytes.length) =
      some (.SUCCESS, (MemoryEncodeBuffer.alloc bytes.length).append bytes) := by
    refine h.2 _ ?_
    rw [Sink.free_eq, MemoryEncodeBuffer.alloc, Sink.ofList, List.length_replicate]
  have hdata : ((MemoryEncodeBuffer.alloc bytes.length).append bytes).data = bytes := by
    simp [MemoryEncodeBuffer.alloc, Sink.ofList, Sink.append, Sink.data]
  have hload : load ((MemoryEncodeBuffer.alloc bytes.length).append bytes).data bytes.length =
      some bytes := by
    rw [hdata, load, if_pos (Nat.le_refl _), List.take_length]
  let m : Message := { Message.empty with
    header := ⟨UInt16.ofNat (bytes.length + info.checksum_size), b.type⟩
    body := some bytes }
  obtain ⟨checksum, hchecksum⟩ : ∃ checksum, m.compute_checksum = some checksum := by
    simp only [m, Message.compute_checksum, hknown, Option.bind_eq_bind, Option.bind_some]
    split
    · exact ⟨_, rfl⟩
    · exact ⟨_, rfl⟩
  refine ⟨{ m with checksum }, ?_, rfl⟩
  rw [Message.ofBody, hknown, h.1]
  simp only [Option.bind_eq_bind, Option.bind_some, hencode, hload]
  change (m.compute_checksum >>= fun checksum => some { m with checksum }) = _
  rw [hchecksum]
  rfl

theorem Arrives.congr [Heap] {received other : Message} (h : Arrives config received b)
    (hbody : received.body = other.body) : Arrives config other b := by
  cases b <;> simpa only [Arrives, Message.as, hbody] using h

-- The body that a receiver gets to see is the encoded one, so that all depends on what it
-- makes of that.
theorem Encodes.roundTrips_iff_arrives (h : b.Encodes bytes)
    (hsize : ∀ info size, get_type_info b.type = some info → b.get_encoded_size = some size →
      size + info.checksum_size ≤ 65535) :
    b.RoundTrips config ↔ ∀ heap : Heap,
      @Arrives heap config { Message.empty with body := some bytes } b := by
  obtain ⟨m, hbody, hbytes⟩ := h.exists_ofBody
  obtain ⟨f, hrep, htype⟩ := Message.exists_represents_body hbody hsize
  obtain ⟨info, hknown, hhas, hnone⟩ := Message.get_type_info_body b
  obtain rfl : info = f.info := Option.some.inj (hknown.symm.trans (htype ▸ f.known))
  obtain rfl : f.body = bytes := by
    have hown := hrep.body_eq
    rw [if_pos ⟨hhas, hnone⟩, hbytes] at hown
    exact (Option.some.inj hown).symm
  have hreceived : f.message.body = some f.body := if_pos hhas
  have hstores : Stores m.encode f.wire := by
    rw [← f.wire_pieces]
    exact hrep.emits.stores
  constructor
  · rintro ⟨m', wire, hbody', -, -, hencode, hdecode⟩ heap
    obtain rfl : m = m' := Option.some.inj (hbody.symm.trans hbody')
    obtain rfl : wire = f.wire := Encoder.Stores.unique hencode hstores
    obtain ⟨received, hdecode, -, -, harrives⟩ :=
      hdecode (Cursor.ofList f.wire) [] (List.append_nil _).symm
    have hown := f.consumes_decode (Cursor.ofList f.wire) [] (List.append_nil _).symm
    obtain rfl : received = f.message :=
      (Prod.mk.inj (Option.some.inj (hdecode.symm.trans hown))).1
    exact (harrives heap).congr hreceived
  · intro harrives
    obtain ⟨ok, hok, hintact⟩ := f.checksum_ok_eq
    have heq : f.message.eq m = some true :=
      Message.eq_of_same hrep.header_eq.symm (hreceived.trans hbytes.symm) hrep.compute_checksum_eq
    refine ⟨m, f.wire, hbody, hrep.get_encoded_size_eq, ?_, hstores, fun buf suffix hbuf => ?_⟩
    · rw [f.length_wire, hrep.header_eq]
    · exact ⟨f.message, f.consumes_decode buf suffix hbuf, heq, hok.trans (hintact.mpr hrep.intact ▸ rfl),
        fun heap => (harrives heap).congr hreceived.symm⟩

end Body

-- A body that is just what a decoder makes an object from.
theorem Message.as_eq {α : Type} {decode_copy : Decode α} {bytes : Bytes} {out : α} {m : Message}
    (h : Decoder.Consumes decode_copy bytes out) (hbody : m.body = some bytes) :
    m.as decode_copy = some out := by
  have hdecode := h (Cursor.ofList bytes) [] (List.append_nil _).symm
  simp only [Message.as, hbody, Option.bind_eq_bind, Option.bind_some, hdecode]
  rfl

theorem Configuration.Built.exists_copy {c : Configuration} (h : c.Built DataDeclaration.Sound) :
    ∃ s : ConfigurationContents, c.Represents s ∧ ∀ heap : Heap, ∃ out,
      Decoder.Consumes (@Configuration.decode_copy heap) s.wire out ∧ out.eq c = some true := by
  obtain ⟨s, modules, hrep, -⟩ := h.numbered.exists_matches
  refine ⟨s, hrep, fun heap => ?_⟩
  have hempty : (Configuration.empty 0).modules.Holds [] := SArray.holds_alloc 0
  obtain ⟨out, outs, hdecode, hcount, -, hout, hmatched⟩ :=
    Configuration.consumes_decode s (hempty.clear.ensure_capacity _).1
  have hout : out.Represents s := ⟨hcount, outs, .inl hout, hmatched.imp fun _ _ hm => hm.1⟩
  exact ⟨out, hdecode.bind_last (Decoder.Consumes.pure _), hout.eq hrep⟩

namespace ModuleControl

variable {mc out : ModuleControl} {config : Configuration} {m : Module} {inputs : List ModuleInput}
  {pairs : List ValuePair}

theorem eq_of_is_clear (h : mc.is_clear = true) (hholds : out.values.Holds [])
    (hid : out.module_id = mc.module_id) (hids : out.input_ids = mc.input_ids) :
    out.eq mc = some true := by
  have hclear : out.is_clear = true := by rw [is_clear, hids, ← is_clear, h]
  have hnone : out.get_num_values = out.values.size := by
    rw [get_num_values, if_pos hclear, hholds.size_eq]
    rfl
  rw [ModuleControl.eq, if_pos ⟨hid, hids⟩, if_pos hnone, get_num_values, if_pos hclear]
  rfl

theorem encodes_of_is_clear (h : mc.is_clear = true) :
    (Body.module_control mc).Encodes mc.header := by
  constructor
  · rw [Body.get_encoded_size, get_encoded_size, get_num_values, if_pos h, length_header]
    rfl
  · rw [Body.encode, encode, if_pos h]
    have hemits : Emits (do
        let _ ← write mc.header
        return .SUCCESS) [⟨mc.header, false⟩] :=
      Encoder.Emits.write_ignored mc.header Encoder.Emits.pure
    simpa using hemits.stores

theorem Carries.encodes (h : mc.Carries (Fitting inputs) pairs) :
    (Body.module_control mc).Encodes (mc.encoding pairs) := by
  have hload : ∀ pair ∈ pairs, pair.Loadable := fun pair hpair => (h.2.2 pair hpair).loadable
  refine ⟨h.get_encoded_size_eq hload, ?_⟩
  rw [← wire_pieces]
  exact (h.emits hload).stores

-- The types of the values are those of the inputs that the message names.
theorem Carries.scalar_iff (h : mc.Carries (Fitting inputs) pairs)
    (hget : config.modules.get mc.module_id.toNat = some m) (hm : m.Addressable inputs) :
    (∀ pair ∈ pairs, pair.Scalar) ↔ (Body.module_control mc).ArrayFree config := by
  have hkey : ∀ pair ∈ pairs, ∀ input, pair.key = some input.input_id.toNat → input ∈ inputs →
      pair.value.data_type = input.data_type := by
    intro pair hpair input hkey hinput
    obtain ⟨own, hown, hpair, htype, -⟩ := h.2.2 pair hpair
    rw [ValuePair.key, hpair] at hkey
    rw [htype, hm.identified.eq_of_id hown hinput (Option.some.inj hkey)]
  constructor
  · intro hscalar m' hget' i hi input hinput
    obtain rfl : m = m' := Option.some.inj (hget.symm.trans hget')
    rw [hm.contains.get] at hinput
    have hid := hm.input_id i input hinput
    have hmem : some i ∈ pairs.map ValuePair.key := h.2.1 ▸ List.mem_map_of_mem hi
    obtain ⟨pair, hpair, hpairkey⟩ := List.mem_map.mp hmem
    have htype := hkey pair hpair input (hid ▸ hpairkey) (List.mem_of_getElem? hinput)
    rw [← htype]
    exact hscalar pair hpair
  · intro hfree pair hpair
    obtain ⟨input, hinput, hown, htype, -⟩ := h.2.2 pair hpair
    have hmem : pair.key ∈ mc.carried.map some := h.2.1 ▸ List.mem_map_of_mem hpair
    rw [ValuePair.key, hown] at hmem
    obtain ⟨i, hi, hid⟩ := List.mem_map.mp hmem
    obtain rfl : i = input.input_id.toNat := Option.some.inj hid
    rw [ValuePair.Scalar, htype]
    refine hfree m hget _ hi input ?_
    rw [hm.contains.get, hm.toIndexed.getElem?_id hinput]

theorem Carries.arrives_iff (h : mc.Carries (Fitting inputs) pairs) (hclear : mc.is_clear = false)
    (hget : config.modules.get mc.module_id.toNat = some m) (hm : m.Addressable inputs) :
    (∀ heap : Heap, @Body.Arrives heap config
      { Message.empty with body := some (mc.encoding pairs) } (.module_control mc)) ↔
      ∀ pair ∈ pairs, pair.Scalar := by
  constructor
  · intro harrives
    obtain ⟨out, hcopy, hsame⟩ := harrives Heap.zeros
    obtain ⟨⟨copied, last⟩, hcopied, hout⟩ := Option.bind_eq_some_iff.mp hcopy
    obtain rfl := Option.some.inj hout
    obtain ⟨⟨r, decoded⟩, middle, hdecode, hout⟩ := bind_eq_some_iff.mp hcopied
    obtain ⟨rfl, rfl⟩ := Prod.mk.inj (pure_eq_some_iff.mp hout)
    exact h.scalar_of_arrives hclear hget hm.toIndexed hdecode hsame
  · intro hscalar heap
    obtain ⟨out, hdecode, -, hid, hids, hholds⟩ := h.exists_copy hget hm.toIndexed hscalar
    refine ⟨out, Message.as_eq hdecode rfl, ?_⟩
    have hout := h.received hholds hids
    refine eq_of_same_values hout (fun pair hpair => ?_) hid.symm hids.symm h.1
    obtain ⟨input, hmem, hinput, -⟩ := h.2.2 pair hpair
    obtain ⟨chars, hname⟩ := hm.names input hmem
    exact ValuePair.eq_self hinput hname (h.2.2 pair hpair).loadable

-- The messages that calls of `set`, or of `clear`, make for a module of a configuration.
theorem run_wellFormed {Declared : DataDeclaration → Prop} (hconfig : config.Built Declared) {i : Nat}
    (hget : config.modules.get i = some m) {ops : List Op}
    (hops : (∀ op ∈ ops, op.Sets m) ∨ ∀ op ∈ ops, op.Clears m) :
    ∃ mc, ops.foldlM Op.run (forModule m) = some mc ∧ (Body.module_control mc).WellFormed config := by
  obtain ⟨hid, inputs, hm⟩ := hconfig.get_id hget
  obtain ⟨mc, pairs, hrun, hmid, hcarries⟩ := run_carries hm hops
  exact ⟨mc, hrun, m, inputs, hmid ▸ hid, hm, .inr ⟨pairs, hcarries⟩⟩

end ModuleControl

namespace Body

theorem encodes_handshake (hs : Handshake) : (handshake hs).Encodes hs.bytes :=
  ⟨congrArg some hs.length_bytes.symm, Encoder.Stores.write hs.bytes⟩

theorem encodes_handshake_response (hs : HandshakeResponse) : (handshake_response hs).Encodes hs.bytes :=
  ⟨rfl, Encoder.Stores.write hs.bytes⟩

-- The message of a body arrives as it was sent just when no array is among its values.
theorem roundTrips_iff {config : Configuration} {b : Body} (h : b.WellFormed config)
    (hsize : ∀ info size, get_type_info b.type = some info → b.get_encoded_size = some size →
      size + info.checksum_size ≤ 65535) : b.RoundTrips config ↔ b.ArrayFree config := by
  cases b with
  | handshake hs =>
      rw [(encodes_handshake hs).roundTrips_iff_arrives hsize]
      exact iff_of_true (fun _ => ⟨hs, Message.as_eq hs.consumes_decode_copy rfl, by simp [Handshake.eq]⟩)
        trivial
  | handshake_response hs =>
      rw [(encodes_handshake_response hs).roundTrips_iff_arrives hsize]
      exact iff_of_true (fun heap => ⟨hs, Message.as_eq (@HandshakeResponse.consumes_decode_copy heap hs) rfl,
        by simp [HandshakeResponse.eq]⟩) trivial
  | configuration c =>
      obtain ⟨s, hrep, hcopy⟩ := Configuration.Built.exists_copy h
      have hencodes : (configuration c).Encodes s.wire := ⟨hrep.get_encoded_size_eq, hrep.stores⟩
      rw [hencodes.roundTrips_iff_arrives hsize]
      refine iff_of_true (fun heap => ?_) trivial
      obtain ⟨out, hdecode, hsame⟩ := hcopy heap
      exact ⟨out, Message.as_eq hdecode rfl, hsame⟩
  | module_control mc =>
      obtain ⟨m, inputs, hget, hm, hvalues⟩ := h
      cases hclear : mc.is_clear with
      | true =>
          rw [(ModuleControl.encodes_of_is_clear hclear).roundTrips_iff_arrives hsize]
          have hfree : (module_control mc).ArrayFree config := by
            intro m hm i hi
            rw [ModuleControl.carried, if_pos hclear] at hi
            exact absurd hi List.not_mem_nil
          refine iff_of_true (fun heap => ?_) hfree
          have hcarries : ({ mc with values := .alloc 0 } : ModuleControl).Carries (Fitting inputs) [] :=
            ModuleControl.carries_of_is_clear hclear
          obtain ⟨out, hdecode, -, hid, hids, hholds⟩ :=
            hcarries.exists_copy hget hm.toIndexed fun pair hpair => absurd hpair List.not_mem_nil
          have hwire : ModuleControl.encoding { mc with values := .alloc 0 } [] = mc.header :=
            List.append_nil _
          rw [hwire] at hdecode
          exact ⟨out, Message.as_eq hdecode rfl, ModuleControl.eq_of_is_clear hclear hholds hid hids⟩
      | false =>
          obtain ⟨pairs, hcarries⟩ := hvalues.resolve_left (Bool.eq_false_iff.mp hclear)
          rw [hcarries.encodes.roundTrips_iff_arrives hsize, hcarries.arrives_iff hclear hget hm,
            hcarries.scalar_iff hget hm]

-- A module "trail" with an input "marks" that takes an array of bytes.
def marks : DataDeclaration := { Configuration.speed with is_array := true }

def marksName : CString := ⟨[109, 97, 114, 107, 115], by decide⟩

def trailSteps : List Configuration.BuildStep :=
  [.add_module (.declare (some ⟨[116, 114, 97, 105, 108], by decide⟩) 1 0),
    .add_input 0 (some marksName) 0 marks false]

def trail : Configuration :=
  (trailSteps.foldlM Configuration.BuildStep.runWithin (Configuration.empty 0)).get (by decide)

def trailModule : Module := (trail.modules.get 0).get (by decide)

def marksInput : ModuleInput := (trailModule.inputs.get 0).get (by decide)

def markOnce : ModuleControl :=
  (ModuleControl.Op.run (ModuleControl.forModule trailModule) (.set (.name marksName) [7])).get (by decide)

theorem trail_built : trail.Built fun _ => True := by
  have hsteps : ∀ step ∈ trailSteps, step.Allowed fun _ => True := by
    intro step hstep
    rcases List.mem_pair.mp hstep with rfl | rfl <;> trivial
  exact (Configuration.Built.empty 0).run_steps hsteps (Option.some_get _).symm

theorem markOnce_wellFormed : (module_control markOnce).WellFormed trail := by
  have hget : trail.modules.get 0 = some trailModule := (Option.some_get _).symm
  have hops : ∀ op ∈ [ModuleControl.Op.set (.name marksName) [7]], op.Sets trailModule := by
    intro op hop
    rw [List.mem_singleton.mp hop]
    refine ⟨_, _, rfl, fun input hinput => ?_⟩
    obtain rfl : marksInput = input := Option.some.inj (Option.some.inj (Eq.trans (by decide) hinput))
    exact ⟨⟨[marksInput], by decide, by simp⟩, by decide⟩
  obtain ⟨mc, hrun, hwell⟩ := ModuleControl.run_wellFormed trail_built hget (.inl hops)
  obtain rfl : markOnce = mc := Option.some.inj (Eq.trans (by decide) hrun)
  exact hwell

theorem markOnce_size (info : MessageTypeInfo) (size : Nat)
    (hinfo : get_type_info (module_control markOnce).type = some info)
    (hsize : (module_control markOnce).get_encoded_size = some size) :
    size + info.checksum_size ≤ 65535 := by
  obtain rfl : 4 = size := Option.some.inj (Eq.trans (by decide) hsize)
  obtain rfl := Option.some.inj hinfo
  decide

theorem markOnce_roundTrips_iff :
    (module_control markOnce).RoundTrips trail ↔ (module_control markOnce).ArrayFree trail :=
  roundTrips_iff markOnce_wellFormed markOnce_size

theorem markOnce_not_roundTrips : (module_control markOnce).WellFormed trail ∧
    (∀ info size, get_type_info (module_control markOnce).type = some info →
      (module_control markOnce).get_encoded_size = some size → size + info.checksum_size ≤ 65535) ∧
    ¬(module_control markOnce).RoundTrips trail := by
  refine ⟨markOnce_wellFormed, markOnce_size, fun hround => ?_⟩
  obtain ⟨m, inputs, hget, hm, hvalues⟩ := markOnce_wellFormed
  have hclear : markOnce.is_clear = false := by decide
  obtain ⟨pairs, hcarries⟩ := hvalues.resolve_left (Bool.eq_false_iff.mp hclear)
  rw [hcarries.encodes.roundTrips_iff_arrives markOnce_size, hcarries.arrives_iff hclear hget hm,
    hcarries.scalar_iff hget hm] at hround
  have hwidth := hround trailModule (by decide) 0 (by decide) marksInput (by decide) (by decide)
  exact absurd hwidth (by decide)

end Body

end RoboCrisp.Comms
