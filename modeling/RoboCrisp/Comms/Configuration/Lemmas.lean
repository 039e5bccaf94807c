import RoboCrisp.Comms.Module.Lemmas

namespace RoboCrisp.Comms

open RoboCrisp.Stream RoboCrisp.Util

namespace Configuration

variable {c : Configuration} {s : ConfigurationContents}

def pieces (s : ConfigurationContents) : List (Piece UInt8) :=
  ⟨[UInt8.ofNat s.modules.length], true⟩ :: s.modules.flatMap Module.pieces

theorem wire_flatMap_pieces (modules : List ModuleContents) :
    Stream.wire (modules.flatMap Module.pieces) = modules.flatMap ModuleContents.wire := by
  induction modules with
  | nil => rfl
  | cons m modules ih =>
      rw [List.flatMap_cons, wire_append, Module.wire_pieces, ih, List.flatMap_cons]

theorem wire_pieces (s : ConfigurationContents) : Stream.wire (pieces s) = s.wire := by
  rw [pieces, wire_cons, wire_flatMap_pieces]
  rfl

theorem Represents.shows (h : c.Represents s) : c.Shows s := by
  obtain ⟨modules, hcontains, hrep⟩ := h.modules
  exact ⟨h.num_modules_eq, modules, hcontains.elems, hrep.imp fun _ _ hm => hm.shows⟩

theorem emits_encode_modules {modules : List Module} {items : List ModuleContents}
    (h : List.Forall₂ Module.Shows modules items) :
    Emits (encode_modules modules) (items.flatMap Module.pieces) := by
  induction h with
  | nil => exact Encoder.Emits.pure
  | cons hhead htail ih => exact hhead.emits.andThen ih

theorem Shows.emits (h : c.Shows s) : Emits c.encode (pieces s) := by
  obtain ⟨modules, helems, hshow⟩ := h.modules
  unfold encode
  rw [helems, eq_ofNat_length h.num_modules_eq]
  exact Emits.andThen (Encoder.Emits.write _) (emits_encode_modules hshow)

theorem Shows.stores (h : c.Shows s) : Stores c.encode s.wire := by
  rw [← wire_pieces]
  exact h.emits.stores

theorem Represents.stores (h : c.Represents s) : Stores c.encode s.wire := h.shows.stores

private theorem sum_sizes {modules : List Module} {items : List ModuleContents}
    (h : List.Forall₂ Module.Shows modules items) (array : SArray Module)
    (front : List Module) (hget : ∀ i, i < (front ++ modules).length →
      array.get i = (front ++ modules)[i]?) (out : Nat) :
    (List.range' front.length modules.length).foldlM (fun out i => do
      let m ← array.get i
      let size ← m.get_encoded_size
      return out + size) out = some (out + (items.flatMap ModuleContents.wire).length) := by
  induction h generalizing front out with
  | nil => rfl
  | @cons m item modules items hhead htail ih =>
      have hm : array.get front.length = some m := by
        rw [hget _ (by simp), List.getElem?_append_right (Nat.le_refl _)]
        simp
      have hrest := ih (front ++ [m]) (by simpa using hget) (out + item.wire.length)
      rw [List.length_append, List.length_singleton] at hrest
      rw [List.length_cons, List.range'_succ, List.foldlM_cons, hm]
      simp only [Option.bind_eq_bind, Option.bind_some, hhead.get_encoded_size_eq, Option.pure_def]
      refine hrest.trans ?_
      rw [List.flatMap_cons, List.length_append, Nat.add_assoc]

theorem Shows.get_encoded_size_eq (h : c.Shows s) : c.get_encoded_size = some s.wire.length := by
  obtain ⟨modules, helems, hshow⟩ := h.modules
  have hlength : c.num_modules.toNat = modules.length := by
    rw [h.num_modules_eq, hshow.length_eq]
  rw [get_encoded_size, hlength, List.range_eq_range']
  refine (sum_sizes hshow c.modules [] (SArray.get_of_elems helems).2 HeaderSize).trans ?_
  rw [ConfigurationContents.wire, List.length_cons, HeaderSize, Nat.add_comm]

theorem Represents.get_encoded_size_eq (h : c.Represents s) :
    c.get_encoded_size = some s.wire.length := h.shows.get_encoded_size_eq

-- It is enough that the array is empty and owns its memory once it has grown.
theorem consumes_decode [Heap] (s : ConfigurationContents)
    (hold : (c.modules.clear.ensure_capacity (UInt8.ofNat s.modules.length).toNat).Holds []) :
    ∃ out modules, Decoder.Consumes c.decode s.wire (.SUCCESS, out) ∧
      out.num_modules.toNat = s.modules.length ∧ out.next_module_id = 0 ∧
      out.modules.Holds modules ∧ List.Forall₂ Module.Matches modules s.modules := by
  have hcount : (UInt8.ofNat s.modules.length).toNat = s.modules.length :=
    toNat_ofNat_length s.num_modules_lt
  -- every turn succeeds and leaves the modules read so far in the array
  let inv (done : List ModuleContents) (state : DecodeResult × SArray Module) : Prop :=
    state.1 = .SUCCESS ∧ ∃ modules, state.2.Holds modules ∧ List.Forall₂ Module.Matches modules done
  have hstep : ∀ done item state, item ∈ s.modules → inv done state →
      ∃ state', Decoder.Consumes (decode_module state) item.wire state' ∧
        inv (done ++ [item]) state' := by
    rintro done item ⟨r, array⟩ - ⟨hr, modules, hholds, hrep⟩
    obtain rfl : r = .SUCCESS := hr
    obtain ⟨m, hdecode, hm⟩ := Module.consumes_decode (m := .empty) SArray.holds_empty
      SArray.holds_empty item
    obtain ⟨array', hpush, hholds'⟩ := hholds.push m
    refine ⟨(.SUCCESS, array'), ?_, rfl, _, hholds', List.rel_append hrep (.cons hm .nil)⟩
    exact hdecode.bind_last ((Decoder.Consumes.lift hpush).bind_nil (Decoder.Consumes.pure _))
  obtain ⟨⟨r, array⟩, hloop, hr, modules, hholds, hrep⟩ := Decoder.Consumes.iterate s.modules hstep
    [] (.SUCCESS, c.modules.clear.ensure_capacity (UInt8.ofNat s.modules.length).toNat)
    ⟨rfl, [], hold, .nil⟩
  obtain rfl : r = .SUCCESS := hr
  refine ⟨⟨UInt8.ofNat s.modules.length, array, 0⟩, modules, ?_, hcount, rfl, hholds, hrep⟩
  have hloop' : Decoder.Consumes (Decoder.iterate decode_module
      (UInt8.ofNat s.modules.length).toNat
      (.SUCCESS, c.modules.clear.ensure_capacity (UInt8.ofNat s.modules.length).toNat))
      (s.modules.flatMap ModuleContents.wire) (.SUCCESS, array) := by
    rw [hcount] at hloop ⊢
    exact hloop
  have hread : Decoder.Consumes (read 1) [UInt8.ofNat s.modules.length]
      (some [UInt8.ofNat s.modules.length]) := Decoder.Consumes.read rfl
  exact hread.bind (hloop'.bind_last (Decoder.Consumes.pure _))

end Configuration

end RoboCrisp.Comms
