import RoboCrisp.Comms.Node.Lemmas
import RoboCrisp.Comms.Message.Transmit
import RoboCrisp.Transition.Peers

namespace RoboCrisp.Comms

open RoboCrisp.Stream RoboCrisp.Util RoboCrisp.Transition

-- What a node is made from. Its role is an enumerator of NodeRole.
structure Party where
  version : UInt32
  role : NodeRole
  role_named : role = .MASTER ∨ role = .SLAVE
  configuration : Configuration

namespace Party

variable {party peer : Party}

def node (party : Party) : Node := .make party.version party.role party.configuration

def greeting (party : Party) : Handshake := .make party.version party.role

-- The response to what the peer sends in launch().
def answer (party peer : Party) : HandshakeResponse := party.node.response peer.greeting

def Matches (party peer : Party) : Prop := party.role ≠ peer.role ∧ party.version = peer.version

theorem Matches.symm (h : party.Matches peer) : peer.Matches party := ⟨h.1.symm, h.2.symm⟩

theorem acknowledge_iff : (party.answer peer).acknowledge = .ACK ↔ party.Matches peer := by
  change (party.node.acknowledge peer.greeting = .ACK) ↔ _
  have hprotocol : ¬peer.greeting.protocol ≠ PROTOCOL_NAME := fun h => h rfl
  rw [Node.acknowledge, if_neg hprotocol]
  by_cases hrole : peer.role = party.role
  · have hconflict : peer.greeting.role = party.node.role := hrole
    rw [if_pos hconflict]
    exact iff_of_false (by decide) fun h => h.1 hrole.symm
  · have hdiffer : ¬peer.greeting.role = party.node.role := hrole
    rw [if_neg hdiffer]
    by_cases hversion : peer.version = party.version
    · have hsame : ¬peer.greeting.version ≠ party.node.version := fun h => h hversion
      rw [if_neg hsame]
      exact iff_of_true rfl ⟨Ne.symm hrole, hversion.symm⟩
    · have hconflict : peer.greeting.version ≠ party.node.version := hversion
      rw [if_pos hconflict]
      exact iff_of_false (by decide) fun h => hversion h.2.symm

-- With two roles to choose from, the one that the peer does not want is the party's own.
theorem answer_role (h : party.Matches peer) : (party.answer peer).role = party.role := by
  change (if peer.role = .MASTER then NodeRole.SLAVE else .MASTER) = party.role
  rcases party.role_named with hrole | hrole
  · have hpeer : ¬peer.role = .MASTER := fun hpeer => h.1 (hrole.trans hpeer.symm)
    rw [if_neg hpeer, hrole]
  · rcases peer.role_named with hpeer | hpeer
    · rw [if_pos hpeer, hrole]
    · exact absurd (hrole.trans hpeer.symm) h.1

end Party

namespace Message

variable {own peer : Party} {m received : Message}

-- The messages of a node by type: only one greeting and one answer are ever sent.
inductive Says (own peer : Party) (m : Message) : Prop
  | greeting (h : ofBody (.handshake own.greeting) = some m)
  | answer (h : ofBody (.handshake_response (own.answer peer)) = some m)
  | other (hgreeting : m.header.type ≠ .HANDSHAKE) (hanswer : m.header.type ≠ .HANDSHAKE_RESPONSE)

-- What a node gets to hear from such a peer.
structure Hears (own peer : Party) (m : Message) : Prop where
  greeting : m.header.type = .HANDSHAKE → m.as Handshake.decode_copy = some peer.greeting
  answer : m.header.type = .HANDSHAKE_RESPONSE → ∀ heap : Heap,
    m.as (@HandshakeResponse.decode_copy heap) = some (peer.answer own)

theorem Says.hears (h : Says peer own m) (htransmit : transmit m = some received) :
    Hears own peer received := by
  have htype := type_of_transmit htransmit
  cases h with
  | greeting h =>
      have hown : received.header.type = .HANDSHAKE := htype.trans (type_of_ofBody h)
      have hsize : peer.greeting.bytes.length + 0 ≤ 65535 := by
        rw [Handshake.length_bytes]
        decide
      have hbody := (body_of_transmit (Body.encodes_handshake _) rfl hsize h htransmit).2
      refine ⟨fun _ => as_eq (Handshake.consumes_decode_copy _) hbody, fun hanswer => ?_⟩
      exact absurd (hown.symm.trans hanswer) (by decide)
  | answer h =>
      have hown : received.header.type = .HANDSHAKE_RESPONSE := htype.trans (type_of_ofBody h)
      have hsize : (peer.answer own).bytes.length + 0 ≤ 65535 := by
        change 2 ≤ 65535
        decide
      have hbody := (body_of_transmit (Body.encodes_handshake_response _) rfl hsize h htransmit).2
      refine ⟨fun hgreeting => ?_, fun _ heap => as_eq (@HandshakeResponse.consumes_decode_copy heap _) hbody⟩
      exact absurd (hown.symm.trans hgreeting) (by decide)
  | other hgreeting hanswer =>
      rw [← htype] at hgreeting hanswer
      exact ⟨fun h => absurd h hgreeting, fun h => absurd h hanswer⟩

end Message

-- What a job that has come from such a peer hands over.
def Job.Expected (own peer : Party) : Job → Prop
  | .handshake_received hs => hs = peer.greeting
  | .handshake_response_received hs => hs = peer.answer own
  | _ => True

namespace Node

variable {own peer : Party} {n n' : Node} {ms : List Message}

-- The application leaves the handshake to the library.
def LeavesHandshake (_n : Node) : NodeEvent → Prop
  | .incoming _ => False
  | .send m => m.header.type ≠ .HANDSHAKE ∧ m.header.type ≠ .HANDSHAKE_RESPONSE
  | _ => True

instance (n : Node) : (e : NodeEvent) → Decidable (n.LeavesHandshake e)
  | .incoming _ => .isFalse id
  | .send m => inferInstanceAs (Decidable (m.header.type ≠ .HANDSHAKE ∧
      m.header.type ≠ .HANDSHAKE_RESPONSE))
  | .launch | .incoming_failed | .dispatch_incoming | .fetch | .write _ | .dispatch_outgoing
  | .execute _ _ | .tick _ | .expire _ | .halt _ _ => .isTrue trivial

-- A node at one end of the connection: what it has to say, has written and has heard.
structure Plays (own peer : Party) (n : Node) : Prop where
  role : n.role = own.role
  version : n.version = own.version
  sent : ∀ m ∈ n.sent, Message.Says own peer m
  items : ∀ m ∈ n.m_outgoing_queue.items, m ∈ n.sent
  writing : ∀ m, n.send_loop = .writing m → m ∈ n.sent
  written : ∀ m ∈ n.written, m ∈ n.sent
  received : ∀ m, n.receive_loop = .received m → Message.Hears own peer m
  posted : ∀ job ∈ n.io_service, job.Expected own peer
  handled : ∀ job ∈ n.handled, job.Expected own peer

theorem Job.expected_of_own {job : Job} (h : job.fromPeer = false) : job.Expected own peer := by
  cases job <;> trivial

theorem Delivers.expected {m : Message} {job : Job} (h : Delivers m job)
    (hhears : Message.Hears own peer m) : job.Expected own peer := by
  rcases h with ⟨htype, hs, rfl, hbody⟩ | ⟨htype, heap, hs, rfl, hbody⟩ | ⟨-, rfl⟩
  · exact Option.some.inj (hbody.symm.trans (hhears.greeting htype))
  · exact Option.some.inj (hbody.symm.trans (hhears.answer htype heap))
  · trivial

theorem Plays.acts (h : n.Plays own peer) (hacts : n.Acts ms n')
    (hms : ∀ m ∈ ms, Message.Says own peer m) : n'.Plays own peer := by
  have hsent : ∀ m ∈ n.sent, m ∈ n'.sent := by
    intro m hm
    rw [hacts.sent]
    exact List.mem_append_left _ hm
  refine ⟨hacts.role.trans h.role, hacts.version.trans h.version, fun m hm => ?_, fun m hm => ?_,
    fun m hm => ?_, fun m hm => ?_, fun m hm => ?_, fun job hjob => ?_, fun job hjob => ?_⟩
  · rw [hacts.sent] at hm
    rcases List.mem_append.mp hm with hm | hm
    · exact h.sent m hm
    · exact hms m hm
  · rw [hacts.items] at hm
    rcases List.mem_append.mp hm with hm | hm
    · exact hsent m (h.items m hm)
    · rw [hacts.sent]
      exact List.mem_append_right _ hm
  · rw [hacts.send_loop] at hm
    exact hsent m (h.writing m hm)
  · rw [hacts.written] at hm
    exact hsent m (h.written m hm)
  · rw [hacts.receive_loop] at hm
    exact h.received m hm
  · obtain ⟨jobs, hjobs, hown⟩ := hacts.io_service
    rw [hjobs] at hjob
    rcases List.mem_append.mp hjob with hjob | hjob
    · exact h.posted job hjob
    · exact Job.expected_of_own (hown job hjob)
  · rw [hacts.handled] at hjob
    exact h.handled job hjob

-- The answer only depends on the role and the version.
theorem Plays.response_eq (h : n.Plays own peer) (hs : Handshake) : n.response hs = own.node.response hs := by
  rw [response, response, acknowledge, acknowledge, h.role, h.version]
  rfl

theorem Plays.says_reply {job : Job} {m : Message} (h : n.Plays own peer) (hjob : job.Expected own peer)
    (hreply : n.Replies job m) : Message.Says own peer m := by
  rcases hreply with hsync | ⟨hs, rfl, hm⟩ | ⟨c, rfl, -, hm⟩
  · have htype := Message.type_of_ofType hsync
    exact .other (by rw [htype]; decide) (by rw [htype]; decide)
  · obtain rfl : hs = peer.greeting := hjob
    rw [h.response_eq] at hm
    exact .answer hm
  · have htype : m.header.type = .CONFIGURATION_RESPONSE := Message.type_of_ofBody hm
    exact .other (by rw [htype]; decide) (by rw [htype]; decide)

theorem Plays.receive_incoming [Heap] {m : Message} (h : n.Plays own peer) (hhears : Message.Hears own peer m)
    (hrun : n.incoming m = some n') : n'.Plays own peer := by
  cases incoming_effect hrun with
  | incoming =>
      refine { h with received := fun m' hm => ?_ }
      obtain rfl := ReceiveLoop.received.inj hm
      exact hhears
  | incoming_stopped => exact { h with received := fun _ => nofun }

theorem step_plays [Heap] {e : NodeEvent} (hinv : n.Plays own peer) (hallowed : n.LeavesHandshake e)
    (hstep : n.step e = some n') : n'.Plays own peer := by
  cases step_effect hstep with
  | refuse => exact { hinv with }
  | @greet m hstage hm =>
      rw [hinv.role, hinv.version] at hm
      have hsent := hinv.acts (Acts.send n m) fun m' hm' => List.mem_singleton.mp hm' ▸ .greeting hm
      exact { hsent with }
  | start_workers => exact { hinv with }
  | spawn_receive_loop => exact { hinv with received := fun _ => nofun }
  | spawn_send_loop => exact { hinv with writing := fun _ => nofun }
  | set_timer => exact { hinv with }
  | store_timer => exact { hinv with }
  | incoming => exact absurd hallowed id
  | incoming_stopped => exact absurd hallowed id
  | incoming_failed =>
      have hloop : ({ n with receive_loop := .exited } : Node).Plays own peer :=
        { hinv with received := fun _ => nofun }
      exact hloop.acts (leave_loop_acts _) fun _ hm => absurd hm List.not_mem_nil
  | ignore => exact { hinv with received := fun _ => nofun }
  | @deliver m job hloop hjob =>
      have hexpected := hjob.expected (hinv.received m hloop)
      exact { hinv with
        received := fun _ => nofun
        posted := forall_mem_concat hinv.posted hexpected }
  | fetch_stopped => exact { hinv with writing := fun _ => nofun }
  | fetch_aborted =>
      have hloop : ({ n with send_loop := .exited } : Node).Plays own peer :=
        { hinv with writing := fun _ => nofun }
      exact hloop.acts (leave_loop_acts _) fun _ hm => absurd hm List.not_mem_nil
  | fetch hloop hitems =>
      have hqueue := hinv.items
      rw [hitems] at hqueue
      refine { hinv with
        items := fun m hm => hqueue m (List.mem_cons_of_mem _ hm)
        writing := fun m hm => ?_ }
      obtain rfl := SendLoop.writing.inj hm
      exact hqueue _ List.mem_cons_self
  | @write_success m hloop =>
      exact { hinv with
        writing := fun _ => nofun
        written := forall_mem_concat hinv.written (hinv.writing m hloop) }
  | @write_try_again m hloop =>
      exact { hinv with
        items := forall_mem_concat hinv.items (hinv.writing m hloop)
        writing := fun _ => nofun }
  | write_error =>
      have hloop : ({ n with send_loop := .exited } : Node).Plays own peer :=
        { hinv with writing := fun _ => nofun }
      exact hloop.acts (leave_loop_acts _) fun _ hm => absurd hm List.not_mem_nil
  | dispatch_outgoing => exact { hinv with writing := fun _ => nofun }
  | @execute i on_worker job _ hjob hrun =>
      have hexpected := hinv.posted job (List.mem_of_getElem? hjob)
      have htaken : ({ n with
          io_service := n.io_service.eraseIdx i
          handled := n.handled ++ [job] } : Node).Plays own peer := { hinv with
        posted := fun job' hmem => hinv.posted job' (List.mem_of_mem_eraseIdx hmem)
        handled := forall_mem_concat hinv.handled hexpected }
      obtain ⟨ms, hacts, hms⟩ := run_job_acts hrun
      exact htaken.acts hacts fun m hm => htaken.says_reply hexpected (hms m hm)
  | tick htick =>
      obtain ⟨ms, hacts, hms⟩ := tick_acts htick
      have hown : Job.Expected own peer .halt := trivial
      exact hinv.acts hacts fun m hm => hinv.says_reply hown (.inl (hms m hm))
  | expire => exact hinv.acts (expire_acts n _) fun _ hm => absurd hm List.not_mem_nil
  | send m =>
      refine hinv.acts (Acts.send n m) fun m' hm => ?_
      rw [List.mem_singleton.mp hm]
      exact .other hallowed.1 hallowed.2
  | halt on_worker force_try =>
      exact hinv.acts (halt_acts n on_worker force_try) fun _ hm => absurd hm List.not_mem_nil

theorem plays_node (own peer : Party) : own.node.Plays own peer :=
  ⟨rfl, rfl, fun _ hm => absurd hm List.not_mem_nil, fun _ hm => absurd hm List.not_mem_nil, fun _ => nofun,
    fun _ hm => absurd hm List.not_mem_nil, fun _ => nofun, fun _ hjob => absurd hjob List.not_mem_nil,
    fun _ hjob => absurd hjob List.not_mem_nil⟩

-- The responses that the node has sent.
def Answers [Heap] (n : Node) (hs : HandshakeResponse) : Prop :=
  ∃ m ∈ n.sent, m.header.type = .HANDSHAKE_RESPONSE ∧ m.as HandshakeResponse.decode_copy = some hs

theorem Plays.answers_eq [Heap] {hs : HandshakeResponse} (h : n.Plays own peer) (hanswers : n.Answers hs) :
    hs = own.answer peer := by
  obtain ⟨m, hm, htype, hbody⟩ := hanswers
  cases h.sent m hm with
  | greeting hgreeting =>
      have hown : m.header.type = .HANDSHAKE := Message.type_of_ofBody hgreeting
      exact absurd (hown.symm.trans htype) (by decide)
  | answer hanswer =>
      obtain ⟨m', hm', hbytes⟩ := (Body.encodes_handshake_response (own.answer peer)).exists_ofBody
      obtain rfl := Option.some.inj (hanswer.symm.trans hm')
      have hown := Message.as_eq (HandshakeResponse.consumes_decode_copy (own.answer peer)) hbytes
      exact Option.some.inj (hbody.symm.trans hown)
  | other _ hother => exact absurd htype hother

theorem Plays.matches_of_accepted (h : n.Plays own peer) (haccepted : n.Accepted) : own.Matches peer := by
  obtain ⟨job, hjob, hack⟩ := haccepted
  obtain ⟨hs, rfl, hown⟩ := Job.accepts_eq_true hack
  obtain rfl : hs = peer.answer own := h.handled _ hjob
  exact (Party.acknowledge_iff.mp hown).symm

def protocol [Heap] : Protocol Node NodeEvent Message where
  step := step
  wire := written
  transmit := transmit
  receive := incoming

-- What the two nodes agree on.
structure Agree [Heap] (peers : Peers Node) : Prop where
  accepted : ∀ side, (peers.state side).Accepted →
    (peers.state side).role ≠ (peers.state side.other).role ∧
      (peers.state side).version = (peers.state side.other).version
  not_both : ¬((peers.state .A).Accepted ∧ (peers.state .B).Accepted ∧
    (peers.state .A).role = (peers.state .B).role)
  same_answer : ∀ side hs hs', (peers.state side).Answers hs → (peers.state side.other).Answers hs' →
    (hs.acknowledge = .ACK ↔ hs'.acknowledge = .ACK)
  own_role : ∀ side hs, (peers.state side).Answers hs → hs.acknowledge = .ACK →
    hs.role = (peers.state side).role

-- What a node hears is what its peer has said.
theorem peers_play [Heap] {party : Side → Party} {trace : List (PeerEvent NodeEvent)} {peers : Peers Node}
    (hrun : Run (Peers.step protocol) (Peers.Allowed LeavesHandshake)
      (.start fun side => (party side).node) trace peers) :
    Peers.Everywhere (fun side n => n.Plays (party side) (party side.other)) peers := by
  have hstart : Peers.Everywhere (fun side n => n.Plays (party side) (party side.other))
      (.start fun side => (party side).node) := fun side => plays_node _ _
  refine hstart.invariant hrun step_plays fun hinv hpeer hm htransmit hreceive => ?_
  rw [Side.other_other] at hpeer
  have hsaid := hpeer.sent _ (hpeer.written _ hm)
  exact hinv.receive_incoming (hsaid.hears htransmit) hreceive

-- Whatever the order in which the two are launched, messages come in and handlers run.
theorem peers_agree [Heap] {party : Side → Party} {trace : List (PeerEvent NodeEvent)} {peers : Peers Node}
    (hrun : Run (Peers.step protocol) (Peers.Allowed LeavesHandshake)
      (.start fun side => (party side).node) trace peers) : Agree peers := by
  have hplays : ∀ side, (peers.state side).Plays (party side) (party side.other) := peers_play hrun
  have haccepted : ∀ side, (peers.state side).Accepted →
      (peers.state side).role ≠ (peers.state side.other).role ∧
        (peers.state side).version = (peers.state side.other).version := by
    intro side haccepted
    rw [(hplays side).role, (hplays side).version, (hplays side.other).role, (hplays side.other).version]
    exact (hplays side).matches_of_accepted haccepted
  refine ⟨haccepted, fun hboth => ?_, fun side hs hs' hown hother => ?_, fun side hs hown hack => ?_⟩
  · exact (haccepted .A hboth.1).1 hboth.2.2
  · have hpeer := hplays side.other
    rw [Side.other_other] at hpeer
    rw [(hplays side).answers_eq hown, hpeer.answers_eq hother, Party.acknowledge_iff, Party.acknowledge_iff]
    exact ⟨Party.Matches.symm, Party.Matches.symm⟩
  · obtain rfl := (hplays side).answers_eq hown
    rw [(hplays side).role]
    exact Party.answer_role (Party.acknowledge_iff.mp hack)

-- A master and a slave, up to the acceptance of the master.
def couple : Side → Party
  | .A => ⟨1, .MASTER, .inl rfl, .empty 0⟩
  | .B => ⟨1, .SLAVE, .inr rfl, .empty 0⟩

def writeEvents : List NodeEvent := [.fetch, .write .success, .dispatch_outgoing]

def coupleTrace : List (PeerEvent NodeEvent) :=
  List.flatten [launchEvents.map (.own .A), launchEvents.map (.own .B), writeEvents.map (.own .A),
    [.deliver .B, .own .B .dispatch_incoming, .own .B (.execute 0 true)], writeEvents.map (.own .B),
    writeEvents.map (.own .B),
    [.deliver .A, .own .A .dispatch_incoming, .deliver .A, .own .A .dispatch_incoming,
      .own .A (.execute 1 true)]]

def coupled : Peers Node :=
  (coupleTrace.foldlM (guarded (Peers.step (@protocol Heap.zeros)) (Peers.Allowed LeavesHandshake))
    (.start fun side => (couple side).node)).get (by decide)

theorem coupled_agree : (coupled.state .A).Accepted ∧ @Agree Heap.zeros coupled :=
  ⟨by decide, @peers_agree Heap.zeros couple coupleTrace coupled (Run.of_foldlM (Option.some_get _).symm)⟩

end Node

end RoboCrisp.Comms
