import RoboCrisp.Comms.BasicNode.Framing

namespace RoboCrisp.Comms.BasicNode

open RoboCrisp.Stream RoboCrisp.Util

section Buffer

def LoopState.room (s : LoopState) : Nat := s.rdbuf.length

-- The read buffer does not shrink.
abbrev Keeps {α : Type} (step : Loop α) : Prop := Grows LoopState.room step

theorem length_store {block bytes stored : Bytes} {offset : Nat}
    (h : store block offset bytes = some stored) : stored.length = block.length := by
  rw [store] at h
  split at h
  · rw [← Option.some.inj h]
    simp only [List.length_append, List.length_take, List.length_drop]
    omega
  · exact absurd h (by simp)

theorem keeps_async_read (size : Nat) : Keeps (async_read size) := by
  intro s bytes s' h
  rw [async_read] at h
  split at h
  · obtain ⟨-, rfl⟩ := Prod.mk.inj (Option.some.inj h)
    exact Nat.le_refl _
  · obtain ⟨-, rfl⟩ := Prod.mk.inj (Option.some.inj h)
    exact Nat.le_refl _

theorem keeps_async_read_until (delimiter : Bytes) : Keeps (async_read_until delimiter) := by
  intro s bytes s' h
  rw [async_read_until] at h
  split at h
  · obtain ⟨-, rfl⟩ := Prod.mk.inj (Option.some.inj h)
    exact Nat.le_refl _
  · obtain ⟨-, rfl⟩ := Prod.mk.inj (Option.some.inj h)
    exact Nat.le_refl _

-- A step that only touches the other fields.
theorem keeps_modify {f : LoopState → LoopState} (h : ∀ s, (f s).rdbuf = s.rdbuf) :
    Keeps (modify f) := by
  intro s value s' hrun
  obtain ⟨-, rfl⟩ := Prod.mk.inj (Option.some.inj hrun)
  rw [LoopState.room, LoopState.room, h]

theorem keeps_poll (m_stopped : Nat → Bool) : Keeps (poll m_stopped) := by
  intro s value s' h
  obtain ⟨-, rfl⟩ := Prod.mk.inj (Option.some.inj h)
  exact Nat.le_refl _

theorem keeps_resync : Keeps resync := by
  refine (keeps_async_read_until delimiter).bind fun read_buf => ?_
  refine Grows.bind (keeps_modify ?_) fun _ => Grows.pure
  exact fun s => rfl

theorem keeps_dispatch (m : Message) : Keeps (dispatch m) := by
  refine Grows.bind (keeps_modify ?_) fun _ => Grows.pure
  exact fun s => rfl

theorem keeps_read_header : Keeps read_header :=
  (keeps_async_read _).bind fun _ => Grows.pure

theorem make_room_length [Heap] {header : Header} {s t : LoopState}
    (h : make_room header s = some ((), t)) :
    ∃ size, ({ Message.empty with header } : Message).get_encoded_size = some size ∧
      t.rdbuf.length = max s.rdbuf.length size := by
  obtain ⟨size, hsize, h⟩ := Option.bind_eq_some_iff.mp h
  obtain ⟨rdbuf, hstore, h⟩ := Option.bind_eq_some_iff.mp h
  obtain ⟨-, rfl⟩ := Prod.mk.inj (Option.some.inj h)
  refine ⟨size, hsize, (length_store hstore).trans ?_⟩
  split
  · rw [Buffer.resize, List.length_append, List.length_take, Heap.length_alloc]
    omega
  · omega

theorem keeps_make_room [Heap] (header : Header) : Keeps (make_room header) := by
  intro s value s' h
  obtain ⟨size, -, hlength⟩ := make_room_length h
  rw [LoopState.room, LoopState.room, hlength]
  exact Nat.le_max_left _ _

theorem keeps_read_body (header : Header) (mti : MessageTypeInfo) :
    Keeps (read_body header mti) := by
  refine Grows.ite ?_ Grows.pure
  intro s value s' h
  by_cases hroom : s.rdbuf.length < Message.HeaderSize + header.length.toNat
  · have hlift : (StateT.lift none : Loop Bool) s = some (value, s') := by
      rw [← h, show (get : Loop LoopState) = fun s => some (s, s) from rfl, bind_apply,
        Option.bind_some, if_pos hroom]
    exact absurd (lift_eq_some_iff.mp hlift).1 (by simp)
  · rw [show (get : Loop LoopState) = fun s => some (s, s) from rfl, bind_apply, Option.bind_some,
      if_neg hroom] at h
    obtain ⟨bytes, middle, hread, h⟩ := bind_eq_some_iff.mp h
    cases bytes with
    | none =>
        obtain ⟨-, rfl⟩ := Prod.mk.inj (pure_eq_some_iff.mp h)
        exact keeps_async_read _ _ _ _ hread
    | some bytes =>
        obtain ⟨rdbuf, between, hstore, h⟩ := bind_eq_some_iff.mp h
        obtain ⟨-, rfl⟩ := Prod.mk.inj (Option.some.inj h)
        exact Nat.le_of_eq (length_store (lift_eq_some_iff.mp hstore).1).symm

theorem keeps_get {next : LoopState → Loop Bool} (h : ∀ s, Keeps (next s)) :
    Keeps (get >>= next) := fun s => h s s

theorem keeps_handle (mti : MessageTypeInfo) : Keeps (handle mti) := by
  refine keeps_get fun s => ?_
  refine Grows.lift.bind fun decoded => ?_
  have hlast : ∀ ok : Bool, Keeps (if ok = true then dispatch decoded.1 else resync) := fun ok =>
    Grows.ite (keeps_dispatch _) keeps_resync
  exact Grows.ite (Grows.lift.bind hlast) (Grows.pure.bind hlast)

theorem keeps_iteration [Heap] (m_stopped : Nat → Bool) : Keeps (iteration m_stopped) := by
  refine keeps_read_header.bind fun header => ?_
  cases header with
  | none => exact Grows.pure
  | some header =>
      refine (keeps_poll m_stopped).bind fun stop => Grows.ite Grows.pure ?_
      refine (keeps_make_room header).bind fun _ => Grows.lift.bind fun mti => ?_
      refine (keeps_read_body header mti).bind fun arrived => Grows.ite ?_ Grows.pure
      exact (keeps_poll m_stopped).bind fun stop => Grows.ite Grows.pure (keeps_handle mti)

end Buffer

-- The states in which a turn of the loop begins.
inductive Turn [Heap] (m_stopped : Nat → Bool) (socket : Chunks UInt8) : LoopState → Prop
  | first {s : LoopState} : poll m_stopped (.start socket) = some (false, s) →
      Turn m_stopped socket s
  | next {s t s' : LoopState} : Turn m_stopped socket s → iteration m_stopped s = some (true, t) →
      poll m_stopped t = some (false, s') → Turn m_stopped socket s'

-- The turn that begins in `s` gets to read the body that `header` announces, in state `t`.
def ReadsBody [Heap] (m_stopped : Nat → Bool) (s : LoopState) (header : Header) (t : LoopState) :
    Prop :=
  ∃ s₁ s₂ mti, read_header s = some (some header, s₁) ∧ poll m_stopped s₁ = some (false, s₂) ∧
    make_room header s₂ = some ((), t) ∧ get_type_info header.type = some mti ∧
    mti.has_body = true

-- The announced bytes have a place behind the header in a buffer of that size.
def Fits (header : Header) (room : Nat) : Prop :=
  Message.HeaderSize + header.length.toNat ≤ room

section Bounds

variable [Heap] {m_stopped : Nat → Bool} {socket : Chunks UInt8} {s t : LoopState} {header : Header}

theorem Turn.room_ge (h : Turn m_stopped socket s) : BUFSIZ ≤ s.room := by
  induction h with
  | first hpoll =>
      have hroom : LoopState.room (.start socket) = BUFSIZ := List.length_replicate
      rw [← hroom]
      exact keeps_poll m_stopped _ _ _ hpoll
  | next _ hiteration hpoll ih =>
      exact Nat.le_trans ih (Nat.le_trans (keeps_iteration m_stopped _ _ _ hiteration)
        (keeps_poll m_stopped _ _ _ hpoll))

theorem ReadsBody.room_eq (h : ReadsBody m_stopped s header t) :
    ∃ size, ({ Message.empty with header } : Message).get_encoded_size = some size ∧
      t.room = max s.room size := by
  obtain ⟨s₁, s₂, mti, hread, hpoll, hmake, -, -⟩ := h
  obtain ⟨size, hsize, hlength⟩ := make_room_length hmake
  refine ⟨size, hsize, hlength.trans ?_⟩
  obtain ⟨bytes, s', hbytes, hpure⟩ := bind_eq_some_iff.mp hread
  obtain ⟨-, rfl⟩ := Prod.mk.inj (pure_eq_some_iff.mp hpure)
  obtain ⟨-, rfl⟩ := Prod.mk.inj (Option.some.inj hpoll)
  rw [LoopState.room]
  simp only [async_read] at hbytes
  split at hbytes
  · obtain ⟨-, rfl⟩ := Prod.mk.inj (Option.some.inj hbytes)
    rfl
  · obtain ⟨-, rfl⟩ := Prod.mk.inj (Option.some.inj hbytes)
    rfl

-- The buffer is made for the length in the header, except for the one type that brings its
-- body along.
theorem ReadsBody.fits_iff (h : ReadsBody m_stopped s header t) (hroom : BUFSIZ ≤ s.room) :
    Fits header t.room ↔ header.type = .SYNC → Fits header s.room := by
  obtain ⟨size, hsize, ht⟩ := h.room_eq
  obtain ⟨-, -, mti, -, -, -, hknown, -⟩ := h
  cases hbody : mti.body with
  | none =>
      rw [Message.get_encoded_size_of_header hknown hbody] at hsize
      obtain rfl := Option.some.inj hsize
      constructor
      · intro _ hsync
        rw [hsync] at hknown
        obtain rfl := Option.some.inj hknown
        exact absurd hbody (by simp)
      · intro _
        rw [Fits, ht]
        exact Nat.le_max_right _ _
  | some text =>
      obtain ⟨htype, htext⟩ := sync_of_body hknown hbody
      rw [Message.get_encoded_size_of_text hknown hbody, htext] at hsize
      obtain rfl := Option.some.inj hsize
      have hsame : t.room = s.room := by
        rw [ht]
        exact Nat.max_eq_left (Nat.le_trans (by decide) hroom)
      rw [hsame]
      exact ⟨fun h _ => h, fun h => h htype⟩

-- In every run: no body is read past the end of the buffer, exactly if no SYNC header announces
-- more than the buffer of that moment holds.
theorem receive_loop_inside_iff (m_stopped : Nat → Bool) (socket : Chunks UInt8) :
    (∀ s, Turn m_stopped socket s → ∀ header t, ReadsBody m_stopped s header t →
      Fits header t.room) ↔
    ∀ s, Turn m_stopped socket s → ∀ header t, ReadsBody m_stopped s header t →
      header.type = .SYNC → Fits header s.room := by
  constructor
  · intro h s hs header t hreads
    exact (hreads.fits_iff hs.room_ge).mp (h s hs header t hreads)
  · intro h s hs header t hreads
    exact (hreads.fits_iff hs.room_ge).mpr (h s hs header t hreads)

end Bounds

-- Three bytes are enough: a SYNC header that announces all that it can.
theorem receive_loop_outside :
    ¬∀ (m_stopped : Nat → Bool) (socket : Chunks UInt8) (s : LoopState),
      @Turn Heap.zeros m_stopped socket s → ∀ header t,
        @ReadsBody Heap.zeros m_stopped s header t → Fits header t.room := by
  let _ := Heap.zeros
  intro h
  let socket : Chunks UInt8 := [[0xFF, 0xFF, 0x02]]
  let s : LoopState := { LoopState.start socket with polls := 1 }
  have hturn : Turn running socket s := .first rfl
  obtain ⟨t, hmake, hroom⟩ : ∃ t, make_room ⟨0xFFFF, .SYNC⟩ { s with socket := [], polls := 2 } =
      some ((), t) ∧ t.room = max BUFSIZ 7 := by
    have hlength : (List.replicate BUFSIZ (0 : UInt8)).length = BUFSIZ := List.length_replicate
    have hsize : ({ Message.empty with header := ⟨0xFFFF, .SYNC⟩ } : Message).get_encoded_size =
        some 7 := rfl
    obtain ⟨rest, hmake, hgrown⟩ := make_room_eq (s := { s with socket := [], polls := 2 }) hsize
      (show Message.HeaderSize ≤ (List.replicate BUFSIZ (0 : UInt8)).length by rw [hlength]; decide)
    exact ⟨_, hmake, hgrown.trans (congrArg (max · 7) hlength)⟩
  have hfits := h running socket s hturn ⟨0xFFFF, .SYNC⟩ t ⟨_, _, _, rfl, rfl, hmake, rfl, rfl⟩
  rw [Fits, hroom] at hfits
  exact absurd hfits (by decide)

end RoboCrisp.Comms.BasicNode
