import RoboCrisp.Comms.Configuration.Objects
import RoboCrisp.Comms.Message.RoundTrip

namespace RoboCrisp.Comms

open RoboCrisp.Stream RoboCrisp.Util RoboCrisp.Transition

-- The bytes that each object takes on the wire. A sensor without a name has no use for its
-- name_length.
def DataDeclaration.weight (obj : DataDeclaration) : Nat :=
  3 + obj.width.toNat *
    (obj.has_neutral_value.toNat + obj.has_minimum_value.toNat + obj.has_maximum_value.toNat)

def ModuleInput.weight (mi : ModuleInput) : Nat := 2 + mi.name_length.toNat + mi.data_type.weight

def Sensor.weight (s : Sensor) : Nat :=
  3 + (if s.name.isSome then s.name_length.toNat else 0) + s.data_type.weight

def Module.weight (m : Module) : Nat :=
  4 + m.name_length.toNat + ((m.inputs.elems.getD []).map ModuleInput.weight).sum +
    ((m.sensors.elems.getD []).map Sensor.weight).sum

def Configuration.weight (c : Configuration) : Nat :=
  1 + ((c.modules.elems.getD []).map Module.weight).sum

theorem ModuleInput.get_encoded_size_eq (mi : ModuleInput) : mi.get_encoded_size = mi.weight := by
  simp only [get_encoded_size, get_tail_size, get_name_length, DataDeclaration.get_tail_size, weight,
    DataDeclaration.weight, HeaderSize, DataDeclaration.HeaderSize]
  omega

theorem Sensor.get_encoded_size_eq (s : Sensor) : s.get_encoded_size = s.weight := by
  simp only [get_encoded_size, get_tail_size, get_name_length, DataDeclaration.get_tail_size, weight,
    DataDeclaration.weight, HeaderSize, DataDeclaration.HeaderSize]
  omega

theorem Module.Counted.get_encoded_size_eq {m : Module} (h : m.Counted) :
    m.get_encoded_size = some m.weight := by
  obtain ⟨inputs, hinputs, -⟩ := h.inputs.exists_elems
  obtain ⟨sensors, hsensors, -⟩ := h.sensors.exists_elems
  have hi := List.map_congr_left (l := inputs) fun input _ => input.get_encoded_size_eq
  have hs := List.map_congr_left (l := sensors) fun sensor _ => sensor.get_encoded_size_eq
  simp only [get_encoded_size, hinputs, hsensors, Option.bind_eq_bind, Option.bind_some, hi, hs,
    weight, Option.getD_some, HeaderSize]
  rfl

namespace Configuration

variable {c : Configuration}

-- The loop, from any index on.
theorem foldlM_get_encoded_size {modules : List Module} (hcounted : ∀ m ∈ modules, m.Counted)
    (front : List Module) (hget : ∀ i, i < (front ++ modules).length →
      c.modules.get i = (front ++ modules)[i]?) (out : Nat) :
    (List.range' front.length modules.length).foldlM (fun out i => do
      let m ← c.modules.get i
      let size ← m.get_encoded_size
      return out + size) out = some (out + (modules.map Module.weight).sum) := by
  induction modules generalizing front out with
  | nil => rfl
  | cons m modules ih =>
      rw [List.forall_mem_cons] at hcounted
      have hm : c.modules.get front.length = some m := by
        rw [hget _ (by simp), List.getElem?_append_right (Nat.le_refl _)]
        simp
      have hrest := ih hcounted.2 (front ++ [m]) (by simpa using hget) (out + m.weight)
      rw [List.length_append, List.length_singleton] at hrest
      rw [List.length_cons, List.range'_succ, List.foldlM_cons, hm]
      simp only [Option.bind_eq_bind, Option.bind_some, hcounted.1.get_encoded_size_eq,
        Option.pure_def]
      refine hrest.trans ?_
      rw [List.map_cons, List.sum_cons, Nat.add_assoc]

theorem Counted.get_encoded_size_eq (h : c.Counted) : c.get_encoded_size = some c.weight := by
  obtain ⟨modules, hmodules, hcount⟩ := h.counts.exists_elems
  rw [get_encoded_size, hcount, List.range_eq_range', weight, hmodules]
  exact foldlM_get_encoded_size (h.modules modules hmodules) [] (SArray.get_of_elems hmodules).2
    HeaderSize

end Configuration

namespace Message

variable {c : Configuration} {m : Message}

-- The length in the header is the exact number of bytes behind it, and a receiver reads what
-- has been sent, to the last byte.
structure Spans (m : Message) (c : Configuration) : Prop where
  length_eq : ∃ size, c.get_encoded_size = some size ∧
    m.header.length.toNat = size + MESSAGE_CHECKSUM_SIZE
  reads : ∃ bytes received, Stores m.encode bytes ∧ Decoder.Consumes decode bytes received

theorem ofBody_configuration (hm : ofBody (.configuration c) = some m) :
    ∃ body, c.get_encoded_size = some body.length ∧ m.body = some body ∧
      m.header = ⟨UInt16.ofNat (body.length + MESSAGE_CHECKSUM_SIZE), .CONFIGURATION_RESPONSE⟩ := by
  -- the entry of the type and the checksum are there
  obtain ⟨size, hsize, hm⟩ := Option.bind_eq_some_iff.mp hm
  obtain ⟨⟨r, eb⟩, -, hm⟩ := Option.bind_eq_some_iff.mp hm
  obtain ⟨body, hbody, hm⟩ := Option.bind_eq_some_iff.mp hm
  obtain rfl := Option.some.inj hm
  have hlength : body.length = size := by
    obtain ⟨hle, hbody⟩ := Option.ite_none_right_eq_some.mp hbody
    rw [← Option.some.inj hbody, List.length_take, Nat.min_eq_left hle]
  exact ⟨body, hlength ▸ hsize, rfl, hlength ▸ rfl⟩

-- As long as the length fits, the message is one of a frame.
theorem exists_frame (hm : ofBody (.configuration c) = some m) {size : Nat}
    (hsize : c.get_encoded_size = some size) (hfits : size + MESSAGE_CHECKSUM_SIZE < 2 ^ 16) :
    ∃ f : Frame, m.Represents f := by
  obtain ⟨body, hbody, hmbody, hheader⟩ := ofBody_configuration hm
  obtain rfl := Option.some.inj (hbody.symm.trans hsize)
  let info : MessageTypeInfo := ⟨.CONFIGURATION_RESPONSE, true, true, none⟩
  let f : Frame := {
    type := .CONFIGURATION_RESPONSE
    info
    known := rfl
    body
    checksum := crc32 (m.header.bytes ++ body)
    no_body := fun h => absurd h (by simp [info])
    no_checksum := fun h => absurd h (by simp [info])
    length_lt := hfits }
  refine ⟨f, hheader, ?_, fun _ => ?_, fun text h => absurd h (by simp [f, info])⟩
  · simp [f, info, hmbody]
  · simp only [f, hheader]
    rfl

-- The frame of a configuration is as long as it says exactly if all of it fits 16 bits.
theorem spans_iff (h : c.Counted) (hm : ofBody (.configuration c) = some m) :
    m.Spans c ↔ c.weight + 4 ≤ 65535 := by
  have hsize := h.get_encoded_size_eq
  constructor
  · rintro ⟨⟨size, hsize', hlength⟩, -⟩
    obtain rfl := Option.some.inj (hsize.symm.trans hsize')
    have hlt := m.header.length.toNat_lt
    rw [hlength, MESSAGE_CHECKSUM_SIZE] at hlt
    omega
  · intro hfits
    obtain ⟨f, hrep⟩ := exists_frame hm hsize (by rw [MESSAGE_CHECKSUM_SIZE]; omega)
    obtain ⟨body, hbody, -, hheader⟩ := ofBody_configuration hm
    have hlength := Option.some.inj (hsize.symm.trans hbody)
    refine ⟨⟨_, hsize, ?_⟩, f.wire, f.message, ?_, f.consumes_decode⟩
    · rw [hheader, ← hlength, UInt16.toNat_ofNat', Nat.mod_eq_of_lt (by rw [MESSAGE_CHECKSUM_SIZE]; omega)]
    · rw [← f.wire_pieces]
      exact hrep.emits.stores

theorem exists_of_represents {s : ConfigurationContents} (h : c.Represents s) :
    ∃ m, ofBody (.configuration c) = some m := by
  have hencodes : (Body.configuration c).Encodes s.wire := ⟨h.get_encoded_size_eq, h.stores⟩
  obtain ⟨m, hm, -⟩ := hencodes.exists_ofBody
  exact ⟨m, hm⟩

end Message

namespace Configuration

variable {c : Configuration} {modules : List Module}

theorem drive_spans : ∃ m, Message.ofBody (.configuration drive) = some m ∧ m.Spans drive := by
  have hsound : drive.Built DataDeclaration.Sound := drive_built.imp fun _ h _ => h.1
  have hnumbered := hsound.numbered
  obtain ⟨s, modules, hrep, -⟩ := hnumbered.exists_matches
  obtain ⟨m, hm⟩ := Message.exists_of_represents hrep
  exact ⟨m, hm, (Message.spans_iff hnumbered.filled.counted hm).mpr (by decide)⟩

-- A module with nothing but a name.
def Nameplate (name : CString) (m : Module) : Prop :=
  ∃ id, m = { Module.declare (some name) 0 0 with id }

theorem Nameplate.weight {name : CString} {m : Module} (h : Nameplate name m)
    (hname : strlen name < 256) : m.weight = 4 + strlen name := by
  obtain ⟨id, rfl⟩ := h
  have hlength : (UInt8.ofNat (strlen name)).toNat = strlen name := by
    rw [UInt8.toNat_ofNat', Nat.mod_eq_of_lt hname]
  exact congrArg (4 + ·) hlength

theorem Nameplate.represents {name : CString} {m : Module} (h : Nameplate name m)
    (hname : strlen name < 256) : ∃ s : ModuleContents, m.Represents s := by
  obtain ⟨id, rfl⟩ := h
  refine ⟨⟨id, name.chars, hname, [], by decide, [], by decide⟩, rfl, ⟨?_, fun _ => ?_⟩, rfl,
    ⟨[], SArray.holds_alloc 0, .nil⟩, rfl, [], SArray.holds_alloc 0, .nil⟩
  · exact (UInt8.toNat_ofNat').trans (Nat.mod_eq_of_lt hname)
  · exact ⟨_, rfl, List.prefix_append _ _⟩

def plateSteps (name : CString) (n : Nat) : List (ConfigurationEvent Unit) :=
  List.replicate n (.add_module () (.declare (some name) 0 0))

theorem exists_add_module {args : ModuleArgs} {out : Module} (h : c.modules.Holds modules)
    (hout : args.construct = some out) : ∃ c', c.add_module args = some c' ∧
      c'.num_modules = c.num_modules + 1 ∧
      c'.modules.Holds (modules ++ [{ out with id := c.next_module_id }]) := by
  obtain ⟨array, hpush, hholds⟩ := h.push { out with id := c.next_module_id }
  exact ⟨_, by simp only [add_module, hout, Option.bind_eq_bind, Option.bind_some, hpush]; rfl, rfl,
    hholds⟩

theorem run_plates [Heap] (name : CString) {n : Nat} (hn : n ≤ 255) :
    ∃ (u : Configurations Unit) (modules : List Module),
      Run Configurations.step Configurations.Keeps (fun _ => .empty 0) (plateSteps name n) u ∧
        (u ()).modules.Holds modules ∧ modules.length = n ∧ (u ()).num_modules.toNat = n ∧
        ∀ m ∈ modules, Nameplate name m := by
  induction n with
  | zero => exact ⟨_, [], .start, SArray.holds_alloc 0, rfl, rfl, by simp⟩
  | succ n ih =>
      obtain ⟨u, modules, hrun, hholds, hlength, hcount, hplates⟩ := ih (by omega)
      obtain ⟨c, hadd, hnum, hgrown⟩ := exists_add_module hholds
        (show ModuleArgs.construct (.declare (some name) 0 0) = some _ from rfl)
      have hstep : Configurations.step u (.add_module () (.declare (some name) 0 0)) =
          some (Function.update u () c) := by
        simp [Configurations.step, Configurations.args, hadd]
      refine ⟨Function.update u () c, _, ?_, by simpa using hgrown, by simp [hlength], ?_, ?_⟩
      · rw [plateSteps, List.replicate_succ']
        exact .next hrun (by simp only [Configurations.Keeps, hholds.size_eq]; omega) hstep
      · rw [Function.update_self, hnum, toNat_succ (by omega), hcount]
      · exact forall_mem_concat hplates ⟨_, rfl⟩

def longName : CString :=
  ⟨List.replicate 255 97, fun h => absurd (List.eq_of_mem_replicate h) (by decide)⟩

-- Neither the constructor nor the encoder looks at the sum. As many modules as the counter can
-- hold do not fit when their names are as long as can be.
theorem plates_not_spans : ∃ (u : Configurations Unit) (m : Message),
    Run (@Configurations.step Unit _ Heap.zeros) Configurations.Keeps (fun _ => .empty 0)
      (plateSteps longName 255) u ∧
    Message.ofBody (.configuration (u ())) = some m ∧ ¬m.Spans (u ()) := by
  let _ := Heap.zeros
  have hname : strlen longName = 255 := List.length_replicate
  obtain ⟨u, modules, hrun, hholds, hlength, hcount, hplates⟩ := run_plates longName (Nat.le_refl 255)
  obtain ⟨items, hitems⟩ := exists_forall₂ fun m hm => (hplates m hm).represents (by omega)
  have hrep : (u ()).Represents ⟨items, by rw [← hitems.length_eq, hlength]; decide⟩ :=
    ⟨by rw [hcount, ← hitems.length_eq, hlength], modules, .inl hholds, hitems⟩
  obtain ⟨m, hm⟩ := Message.exists_of_represents hrep
  refine ⟨u, m, hrun, hm, fun hspans => ?_⟩
  have hweight : (u ()).weight = 1 + 255 * 259 := by
    have hmap : modules.map Module.weight = List.replicate modules.length 259 :=
      List.map_eq_replicate_iff.mpr fun m hm => by rw [(hplates m hm).weight (by omega), hname]
    rw [weight, hholds.elems, Option.getD_some, hmap, hlength, List.sum_replicate_nat]
  have hcounted := ((Configurations.allFilled_empty fun _ => 0).run hrun).counted ()
  obtain ⟨size, hsize, hlast⟩ := hspans.length_eq
  have hlt := m.header.length.toNat_lt
  rw [hcounted.get_encoded_size_eq, hweight] at hsize
  rw [hlast, ← Option.some.inj hsize, MESSAGE_CHECKSUM_SIZE] at hlt
  omega

end Configuration

end RoboCrisp.Comms
