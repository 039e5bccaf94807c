import RoboCrisp.Comms.Configuration.RoundTrip
import RoboCrisp.Comms.ModuleControl

namespace RoboCrisp.Comms

open RoboCrisp.Stream RoboCrisp.Util

-- The objects that are sent on their own or inside of each other. A control message is
-- read against a configuration.
inductive Value
  | declaration (obj : DataDeclaration)
  | input (obj : ModuleInput)
  | sensor (obj : Sensor)
  | module (obj : Module)
  | configuration (obj : Configuration)
  | control (obj : ModuleControl) (config : Configuration)

namespace Value

def get_encoded_size : Value → Option Nat
  | .declaration obj => some obj.get_encoded_size
  | .input obj => some obj.get_encoded_size
  | .sensor obj => some obj.get_encoded_size
  | .module obj => obj.get_encoded_size
  | .configuration obj => obj.get_encoded_size
  | .control obj _ => obj.get_encoded_size

def encode : Value → Encode
  | .declaration obj => obj.encode
  | .input obj => obj.encode
  | .sensor obj => obj.encode
  | .module obj => obj.encode
  | .configuration obj => obj.encode
  | .control obj _ => obj.encode

-- The result of a decode into the object.
def decode [Heap] : Value → Decode DecodeResult
  | .declaration _ => Prod.fst <$> DataDeclaration.decode
  | .input _ => Prod.fst <$> ModuleInput.decode
  | .sensor _ => Prod.fst <$> Sensor.decode
  | .module obj => Prod.fst <$> obj.decode
  | .configuration obj => Prod.fst <$> obj.decode
  | .control obj config => Prod.fst <$> obj.decode config

def Encodes (x : Value) (bytes : Bytes) : Prop :=
  x.get_encoded_size = some bytes.length ∧
    ∀ buf : MemoryEncodeBuffer, bytes.length ≤ buf.free →
      x.encode buf = some (.SUCCESS, buf.append bytes)

-- A decode into `target` from a buffer of just `data` ends with an error.
def Reports [Heap] (target : Value) (data : Bytes) : Prop :=
  ∃ r buf, target.decode (Cursor.ofList data) = some (r, buf) ∧ r ≠ .SUCCESS

end Value

-- No decoder looks at the results of the reads and decoders inside of it, apart from the one
-- of a configuration.

def Succeeds {α : Type} (result : DecodeResult × α) : Prop := result.1 = .SUCCESS

theorem DataDeclaration.yields_decode : Decoder.Yields DataDeclaration.decode Succeeds :=
  Decoder.Yields.bind_any fun _ => Decoder.Yields.pure rfl

theorem ModuleInput.yields_decode [Heap] : Decoder.Yields ModuleInput.decode Succeeds :=
  Decoder.Yields.bind_any fun _ => Decoder.Yields.pure rfl

theorem Sensor.yields_decode [Heap] : Decoder.Yields Sensor.decode Succeeds :=
  Decoder.Yields.bind_any fun _ => Decoder.Yields.pure rfl

theorem Module.yields_decode [Heap] (m : Module) : Decoder.Yields m.decode Succeeds := by
  refine Decoder.Yields.bind_any fun header => ?_
  refine Decoder.Yields.bind_any fun named => ?_
  refine Decoder.Yields.bind_any fun inputs => ?_
  refine Decoder.Yields.bind_any fun sensors => ?_
  refine Decoder.Yields.bind_any fun numbered => ?_
  exact Decoder.Yields.bind_any fun last => Decoder.Yields.pure rfl

theorem ModuleControl.yields_decode_tail [Heap] (mc : ModuleControl) (config : Configuration) :
    Decoder.Yields (mc.decode_tail config) Succeeds := by
  unfold ModuleControl.decode_tail
  split
  · exact Decoder.Yields.pure rfl
  · split
    · exact Decoder.Yields.bind_any fun values => Decoder.Yields.pure rfl
    · refine Decoder.Yields.bind_any fun m => ?_
      exact Decoder.Yields.bind_any fun values => Decoder.Yields.pure rfl

theorem ModuleControl.yields_decode [Heap] (mc : ModuleControl) (config : Configuration) :
    Decoder.Yields (mc.decode config) Succeeds := by
  refine Decoder.Yields.bind_any fun buf => ?_
  refine Decoder.Yields.bind_any fun module_id => ?_
  refine Decoder.Yields.bind_any fun m => ?_
  refine Decoder.Yields.bind_any fun header => ?_
  cases header with
  | none => exact yields_decode_tail _ config
  | some bytes => exact yields_decode_tail _ config

namespace Configuration

variable [Heap] (c : Configuration)

theorem decode_nil :
    c.decode (Cursor.ofList []) = some ((.BUFFER_UNDERFLOW, c.reset), Cursor.ofList []) := rfl

theorem decode_cons (num_modules : UInt8) (data : Bytes) :
    c.decode (Cursor.ofList (num_modules :: data)) = (do
      let (r, modules) ← Decoder.iterate decode_module num_modules.toNat
        (.SUCCESS, c.reset.modules.ensure_capacity num_modules.toNat)
      return (r, { c.reset with num_modules, modules } ) : Decode _) ⟨[num_modules], data⟩ := by
  have hcursor : (Cursor.ofList (num_modules :: data)).read 1 =
      (some [num_modules], ⟨[num_modules], data⟩) :=
    Cursor.read_of_rest (show (Cursor.ofList (num_modules :: data)).rest = [num_modules] ++ data
      from rfl)
  rw [Configuration.decode, bind_apply]
  change (some ((Cursor.ofList (num_modules :: data)).read 1)).bind _ = _
  rw [hcursor]
  rfl

-- Behind the count nothing fails any more, since no module does.
theorem yields_decode_cons {num_modules : UInt8} {data : Bytes} {result : DecodeResult × Configuration}
    {buf : DecodeBuffer} (hrun : c.decode (Cursor.ofList (num_modules :: data)) = some (result, buf)) :
    Succeeds result := by
  have hloop : ∀ modules : SArray Module, Decoder.Yields
      (Decoder.iterate decode_module num_modules.toNat (.SUCCESS, modules)) Succeeds := by
    intro modules
    refine Decoder.Yields.iterate (fun state hstate => ?_) _ rfl
    obtain ⟨r, modules⟩ := state
    obtain rfl : r = .SUCCESS := hstate
    refine (Module.yields_decode .empty).bind ?_
    rintro ⟨r, m⟩ hr
    exact Decoder.Yields.bind_any fun modules => Decoder.Yields.pure hr
  rw [decode_cons] at hrun
  refine ((hloop _).bind ?_) _ _ _ hrun
  rintro ⟨r, modules⟩ hr
  exact Decoder.Yields.pure hr

end Configuration

namespace Value

theorem yields_decode [Heap] {target : Value} (h : ∀ c, target ≠ .configuration c) :
    Decoder.Yields target.decode (· = .SUCCESS) := by
  cases target with
  | declaration obj => exact Decoder.Yields.map DataDeclaration.yields_decode
  | input obj => exact Decoder.Yields.map ModuleInput.yields_decode
  | sensor obj => exact Decoder.Yields.map Sensor.yields_decode
  | module obj => exact Decoder.Yields.map obj.yields_decode
  | configuration obj => exact absurd rfl (h obj)
  | control obj config => exact Decoder.Yields.map (obj.yields_decode config)

-- Of all the ways to cut off an encoding, only the one that leaves nothing at all of a
-- configuration is noticed.
theorem reports_iff [Heap] (target : Value) (data : Bytes) :
    target.Reports data ↔ (∃ c, target = .configuration c) ∧ data = [] := by
  constructor
  · rintro ⟨r, buf, hrun, hr⟩
    by_cases hkind : ∃ c, target = .configuration c
    · refine ⟨hkind, ?_⟩
      obtain ⟨c, rfl⟩ := hkind
      cases data with
      | nil => rfl
      | cons num_modules data =>
          obtain ⟨⟨result, rest⟩, hdecode, hresult⟩ := Option.bind_eq_some_iff.mp hrun
          obtain ⟨rfl, -⟩ := Prod.mk.inj (Option.some.inj hresult)
          exact absurd (c.yields_decode_cons hdecode) hr
    · exact absurd (yields_decode (not_exists.mp hkind) _ _ _ hrun) hr
  · rintro ⟨⟨c, rfl⟩, rfl⟩
    exact ⟨.BUFFER_UNDERFLOW, Cursor.ofList [], rfl, by decide⟩

theorem encodes_module {m : Module} {s : ModuleContents} (h : m.Represents s) :
    (Value.module m).Encodes s.wire := by
  refine ⟨h.shows.get_encoded_size_eq, ?_⟩
  rw [← Module.wire_pieces]
  exact h.shows.emits.stores

-- A module of which one byte has arrived.
theorem not_reports_truncated :
    ¬∀ (x : Value) (bytes data : Bytes), x.Encodes bytes → data <+: bytes → data ≠ bytes →
      @Reports Heap.zeros x data := by
  intro h
  obtain ⟨s, hrep, -⟩ := Configuration.driveModule_dense.exists_matches
  have hne : s.wire.take 1 ≠ s.wire := by
    intro hsame
    have hlength := congrArg List.length hsame
    simp only [ModuleContents.wire, List.length_take, List.length_append, Module.length_header,
      Module.HeaderSize] at hlength
    omega
  obtain ⟨r, buf, hrun, hr⟩ := h _ _ _ (encodes_module hrep) (List.take_prefix 1 _) hne
  exact hr (@yields_decode Heap.zeros _ (fun c => Value.noConfusion) _ _ _ hrun)

end Value

end RoboCrisp.Comms
