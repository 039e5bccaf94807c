import RoboCrisp.Comms.Configuration.Build
import RoboCrisp.Comms.Equality

namespace RoboCrisp.Comms

open RoboCrisp.Stream RoboCrisp.Util

namespace Configuration

variable {c target : Configuration} {next : UInt8}

-- Equal in every field that is sent, and in the counters of every module.
def Equals (c out : Configuration) : Prop :=
  (∃ s, c.Represents s ∧ out.Represents s) ∧
    ∃ modules outs, c.modules.Holds modules ∧ out.modules.Contains outs ∧
      List.Forall₂ (fun m o => o.next_input_id = m.next_input_id ∧
        o.next_sensor_id = m.next_sensor_id) modules outs

theorem Numbered.exists_matches (h : c.Numbered DataDeclaration.Sound next) :
    ∃ s modules, c.Represents s ∧ c.modules.Holds modules ∧
      List.Forall₂ Module.Matches modules s.modules := by
  obtain ⟨modules, hholds, horder, hcount, -⟩ := h
  obtain ⟨items, hitems⟩ := exists_forall₂ fun m hm => (horder.good m hm).exists_matches
  have hlength := hcount.trans hitems.length_eq
  exact ⟨⟨items, by rw [← hlength]; exact c.num_modules.toNat_lt⟩, modules,
    ⟨hlength, modules, .inl hholds, hitems.imp fun _ _ hm => hm.1⟩, hholds, hitems⟩

-- encode fills exactly the announced size, and decode reads exactly that back into the target,
-- whatever follows it. The modules that the target has held before are ones to destroy.
def RoundTrips [Heap] (c target : Configuration) : Prop :=
  ∃ size bytes, c.get_encoded_size = some size ∧ bytes.length = size ∧
    (∀ buf : MemoryEncodeBuffer, size ≤ buf.free →
      c.encode buf = some (.SUCCESS, buf.append bytes)) ∧
    target.modules.Destructible ∧ ∀ (buf : DecodeBuffer) (suffix : Bytes), buf.rest = bytes ++ suffix →
      ∃ out, target.decode buf = some ((.SUCCESS, out), buf.advance size) ∧ c.Equals out

-- The array of the target owns all its memory. One that was moved out of keeps its size and its
-- capacity: decode is right about it only if they make it allocate memory again for the modules to
-- come, in front of which nothing else is left.
def Restorable (c target : Configuration) : Prop :=
  (∃ old, target.modules.Holds old) ∨ target.modules.data = none ∧ target.modules.size = 0 ∧
    (c.modules.size = 0 ∨ target.modules.capacity < c.modules.size)

-- No modules are read into whatever array there is.
theorem consumes_decode_none [Heap] (s : ConfigurationContents) (hs : s.modules = []) :
    Decoder.Consumes target.decode s.wire
      (.SUCCESS, ⟨0, target.modules.clear.ensure_capacity 0, 0⟩) := by
  have hread : Decoder.Consumes (read 1) [(0 : UInt8)] (some [0]) := Decoder.Consumes.read rfl
  have hwire : s.wire = [0] ++ [] := by
    rw [ConfigurationContents.wire, hs]
    rfl
  rw [hwire]
  exact hread.bind (Decoder.Consumes.pure _)

section RoundTrips

variable [Heap] {s : ConfigurationContents}

theorem Restorable.consumes_decode (h : c.Restorable target) (hlength : c.modules.size = s.modules.length) :
    target.modules.Destructible ∧ ∃ out outs, Decoder.Consumes target.decode s.wire (.SUCCESS, out) ∧
      out.num_modules.toNat = s.modules.length ∧ out.modules.Contains outs ∧
      List.Forall₂ Module.Matches outs s.modules := by
  obtain ⟨old, hold⟩ | ⟨hdata, hsize, hroom⟩ := h
  · obtain ⟨out, outs, hdecode, hcount, -, hout, hmatched⟩ :=
      Configuration.consumes_decode s (hold.clear.ensure_capacity _).1
    exact ⟨hold.destructible, out, outs, hdecode, hcount, .inl hout, hmatched⟩
  · have hclear : target.modules.clear = target.modules := by
      rw [SArray.clear, hdata]
    refine ⟨fun hsome => absurd hdata hsome, ?_⟩
    rw [hlength] at hroom
    obtain hnone | hroom := hroom
    · have hs : s.modules = [] := List.length_eq_zero_iff.mp hnone
      refine ⟨_, [], consumes_decode_none s hs, by rw [hnone]; rfl, ?_, by rw [hs]; exact .nil⟩
      rw [hclear]
      exact SArray.Contains.ensure_capacity (.inr ⟨rfl, hdata, hsize⟩) 0
    · have hgrown : (target.modules.clear.ensure_capacity
          (UInt8.ofNat s.modules.length).toNat).Holds [] := by
        rw [hclear, toNat_ofNat_length s.num_modules_lt]
        exact SArray.holds_grown hdata hsize hroom
      obtain ⟨out, outs, hdecode, hcount, -, hout, hmatched⟩ := Configuration.consumes_decode s hgrown
      exact ⟨out, outs, hdecode, hcount, .inl hout, hmatched⟩

end RoundTrips

-- Configuration a(4); a.add_module(); Configuration b(std::move(a)); and then the bytes into a.
def left : Configuration := (((empty 4).add_module .none).get (by decide)).movedFrom

end Configuration

end RoboCrisp.Comms
