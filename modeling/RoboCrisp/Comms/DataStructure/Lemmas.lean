import RoboCrisp.Comms.APIElement.Construction
import RoboCrisp.Comms.Equality

namespace RoboCrisp.Comms

open RoboCrisp.Stream RoboCrisp.Util

namespace DataDeclaration

section Spending

variable {obj o : DataDeclaration}

theorem spends_decode_bound (present : Bool) (width : Nat) (slot : Slot) :
    Decoder.Spends (width * present.toNat) (decode_bound present width .SUCCESS slot)
      fun count out => count = width * present.toNat ∧ out.1 = .SUCCESS := by
  cases present with
  | false => exact Decoder.Spends.pure ⟨rfl, rfl⟩
  | true =>
      rw [Bool.toNat_true, Nat.mul_one]
      unfold decode_bound
      rw [if_pos ⟨rfl, rfl⟩]
      refine (Decoder.Spends.read width).bind_last fun spent cells hcells => ?_
      obtain ⟨rfl, data, rfl, -⟩ := hcells
      exact Decoder.Spends.lift_bind fun slot' _ => Decoder.Spends.pure ⟨rfl, rfl⟩

theorem spends_decode_tail (obj : DataDeclaration) :
    Decoder.Spends obj.get_tail_size obj.decode_tail fun count out =>
      count = out.2.get_tail_size := by
  have hsize := obj.get_tail_size_eq_add
  unfold decode_tail
  refine Decoder.Spends.get fun cursor hroom => ?_
  rw [if_neg (Nat.not_lt.mpr hroom), hsize]
  refine (spends_decode_bound _ _ _).bind ?_
  rintro n ⟨r, neutral_value⟩ ⟨rfl, rfl⟩
  refine (spends_decode_bound _ _ _).bind ?_
  rintro n ⟨r, minimum_value⟩ ⟨rfl, rfl⟩
  refine (spends_decode_bound _ _ _).bind_last ?_
  rintro n ⟨r, maximum_value⟩ ⟨rfl, rfl⟩
  exact Decoder.Spends.pure hsize.symm

theorem get_tail_size_le (obj : DataDeclaration) : obj.get_tail_size ≤ 93 := by
  have hwidth := obj.width.isLt
  have hneutral := obj.has_neutral_value.toNat_le
  have hminimum := obj.has_minimum_value.toNat_le
  have hmaximum := obj.has_maximum_value.toNat_le
  calc
    obj.get_tail_size ≤ 31 * 3 := Nat.mul_le_mul (by omega) (by omega)
    _ = 93 := rfl

theorem spends_decode : Decoder.Spends 96 decode fun count out =>
    out.1 = .SUCCESS ∧ count = out.2.get_encoded_size := by
  have hdetail : Decoder.Spends (HeaderSize + 93) decode_detail fun count out =>
      count = out.2.get_encoded_size := by
    refine (Decoder.Spends.read HeaderSize).bind ?_
    rintro n _ ⟨rfl, data, rfl, -⟩
    exact (spends_decode_tail _).imp (get_tail_size_le _) fun count _ out hcount =>
      congrArg (HeaderSize + ·) hcount
  exact hdetail.bind_last fun count out hcount => Decoder.Spends.pure ⟨rfl, hcount⟩

-- Declarations that compare equal are announced with the same size, and their bounds are all
-- inside the slots.
theorem size_eq_of_compare (h : obj.compare o = some true) :
    o.Sound ∧ o.get_encoded_size = obj.get_encoded_size := by
  obtain ⟨⟨-, hwidth, -⟩, hneutral, hminimum, hmaximum⟩ := compare_iff.mp h
  constructor
  · intro hany
    rw [← hneutral.present_eq, ← hminimum.present_eq, ← hmaximum.present_eq] at hany
    rw [← hwidth]
    simp only [Bool.or_eq_true] at hany
    obtain (hpresent | hpresent) | hpresent := hany
    · exact (hneutral.bytes_eq hpresent).1
    · exact (hminimum.bytes_eq hpresent).1
    · exact (hmaximum.bytes_eq hpresent).1
  · simp only [get_encoded_size, get_tail_size, hwidth, hneutral.present_eq, hminimum.present_eq,
      hmaximum.present_eq]

end Spending

end DataDeclaration

theorem DataDeclaration.Represents.sound {obj : DataDeclaration} {s : DeclarationContents}
    (h : obj.Represents s) : obj.Sound := by
  intro hany
  rw [h.neutral.present_eq, h.minimum.present_eq, h.maximum.present_eq] at hany
  simp only [Bool.or_eq_true, Option.isSome_iff_exists] at hany
  rw [h.width_eq]
  obtain (⟨bound, -⟩ | ⟨bound, -⟩) | ⟨bound, -⟩ := hany
  all_goals exact bound.width_le

-- What a field says to a peer.
structure FieldContents where
  element : APIContents
  sendable : element.AllSendable
  declaration : DeclarationContents

def FieldContents.wire (s : FieldContents) : Bytes := s.element.wire false ++ s.declaration.wire

namespace DataField

structure Represents (obj : DataField) (s : FieldContents) : Prop where
  element : obj.toAPIElement.Represents s.element
  declaration : obj.declaration.Represents s.declaration

variable {obj other : DataField} {s : FieldContents}

theorem Represents.get_encoded_size_eq (h : obj.Represents s) :
    obj.get_encoded_size = s.wire.length := by
  rw [get_encoded_size, h.element.get_encoded_size_eq false, h.declaration.get_encoded_size_eq,
    FieldContents.wire, List.length_append]

theorem Represents.stores (h : obj.Represents s) : Stores obj.encode s.wire := by
  have hdeclaration : Stores obj.declaration.encode s.declaration.wire := by
    have hstores := h.declaration.emits.stores
    rwa [wire_cons, DataDeclaration.wire_tailPieces] at hstores
  exact h.element.stores.bind hdeclaration

theorem consumes_decode (obj : DataField) (s : FieldContents) :
    ∃ out, Decoder.Consumes obj.decode s.wire (.SUCCESS, out) ∧ out.Represents s := by
  obtain ⟨declaration, hdecode, hdeclaration⟩ := DataDeclaration.consumes_decode s.declaration
  refine ⟨{ s.element.decoded with declaration }, ?_, s.element.represents_decoded, hdeclaration⟩
  exact (APIElement.consumes_decode s.sendable false).bind
    (hdecode.bind_last (Decoder.Consumes.pure _))

theorem eq_iff : obj.eq other = some true ↔
    obj.toAPIElement.eq other.toAPIElement = some true ∧
      obj.declaration.compare other.declaration = some true := by
  rw [DataField.eq, DataDeclaration.and_then_iff]

theorem Represents.eq (h : obj.Represents s) (h' : other.Represents s) :
    obj.eq other = some true := by
  refine eq_iff.mpr ⟨h.element.eq h'.element s.sendable, ?_⟩
  rw [h.declaration.sound.compare_eq, h.declaration.eq h'.declaration]

-- What has been read: as many bytes as it would be announced with, or more.
theorem spends_decode (obj : DataField) : Decoder.Spends 865 obj.decode fun count out =>
    out.1 = .SUCCESS ∧ (∃ s, out.2.toAPIElement.Represents s) ∧
      out.2.get_encoded_size ≤ count := by
  have hspends : Decoder.Spends (769 + 96) obj.decode fun count out =>
      out.1 = .SUCCESS ∧ (∃ s, out.2.toAPIElement.Represents s) ∧
        out.2.get_encoded_size ≤ count := by
    refine APIElement.spends_decode.bind ?_
    rintro n ⟨r, element⟩ ⟨rfl, hrep, hn⟩
    refine DataDeclaration.spends_decode.bind_last ?_
    rintro count ⟨r, declaration⟩ ⟨rfl, rfl⟩
    exact Decoder.Spends.pure ⟨rfl, hrep, Nat.add_le_add_right hn _⟩
  exact hspends

-- A field that has been read and is equal to one from a constructor is announced with at least
-- as many bytes, and with more unless all the strings of the other one have characters.
theorem encoded_size_le {s : APIContents} (h : obj.toAPIElement.Represents s)
    (hgiven : other.toAPIElement.Given) (heq : obj.eq other = some true) :
    other.get_encoded_size ≤ obj.get_encoded_size ∧ other.declaration.Sound ∧
      (obj.get_encoded_size ≤ other.get_encoded_size → other.toAPIElement.Filled) := by
  obtain ⟨helement, hdeclaration⟩ := eq_iff.mp heq
  obtain ⟨hle, hfilled⟩ := h.encoded_size_le hgiven helement
  obtain ⟨hsound, hsize⟩ := DataDeclaration.size_eq_of_compare hdeclaration
  simp only [get_encoded_size]
  exact ⟨by omega, hsound, fun hsizes => hfilled (by omega)⟩

end DataField

namespace DataStructure

variable {obj ds : DataStructure}

-- What the array of fields has come to hold, and how many bytes it would be announced with.
def Collected (old : List DataField) (spent : Nat) (fields : SArray DataField) : Prop :=
  ∃ more, fields.Holds (old ++ more) ∧ (∀ f ∈ more, ∃ s, f.toAPIElement.Represents s) ∧
    (more.map DataField.get_encoded_size).sum ≤ spent

theorem spends_decode_field {old : List DataField} {spent : Nat}
    {state : DecodeResult × SArray DataField} (h : state.1 = .SUCCESS ∧ Collected old spent state.2) :
    Decoder.Spends 865 (decode_field state) fun count state' =>
      state'.1 = .SUCCESS ∧ Collected old (spent + count) state'.2 := by
  obtain ⟨r, fields⟩ := state
  obtain ⟨rfl, more, hholds, hmore, hspent⟩ := h
  refine (DataField.spends_decode .empty).bind_last ?_
  rintro count ⟨r, f⟩ ⟨rfl, hf, hcount⟩
  refine Decoder.Spends.lift_bind fun fields' hpush => Decoder.Spends.pure ⟨rfl, more ++ [f], ?_, ?_, ?_⟩
  · obtain ⟨array, harray, hholds'⟩ := hholds.push f
    obtain rfl := Option.some.inj (harray.symm.trans hpush)
    rwa [List.append_assoc] at hholds'
  · intro g hg
    obtain hg | hg := List.mem_append.mp hg
    · exact hmore g hg
    · obtain rfl := List.mem_singleton.mp hg
      exact hf
  · dsimp only at hcount
    rw [List.map_append, List.sum_append, List.map_singleton, List.sum_singleton]
    omega

-- Decoding adds fields to the ones that are there, and takes as many bytes as what it has read
-- would be announced with, or more.
theorem spends_decode {old : List DataField} (hold : obj.fields.Holds old) :
    Decoder.Spends 221345 obj.decode fun count out =>
      (∃ s, out.2.toAPIElement.Represents s) ∧ ∃ more, out.2.fields.Holds (old ++ more) ∧
        (∀ f ∈ more, ∃ s, f.toAPIElement.Represents s) ∧
        out.2.toAPIElement.get_encoded_size + (if more = [] then 0 else 1) +
          (more.map DataField.get_encoded_size).sum ≤ count := by
  have hspends : Decoder.Spends (769 + (1 + 255 * 865)) obj.decode fun count out =>
      (∃ s, out.2.toAPIElement.Represents s) ∧ ∃ more, out.2.fields.Holds (old ++ more) ∧
        (∀ f ∈ more, ∃ s, f.toAPIElement.Represents s) ∧
        out.2.toAPIElement.get_encoded_size + (if more = [] then 0 else 1) +
          (more.map DataField.get_encoded_size).sum ≤ count := by
    refine Decoder.Spends.peek fun mask => APIElement.spends_decode.bind ?_
    rintro n ⟨r, element⟩ ⟨rfl, hrep, hn⟩
    dsimp only at hn ⊢
    rw [if_neg (not_not_intro rfl)]
    by_cases hmask : mask &&& ELEMENT_FIELDS = 0
    · rw [if_pos hmask]
      exact Decoder.Spends.pure ⟨hrep, [], by rwa [List.append_nil], by simp, by simpa using hn⟩
    · rw [if_neg hmask]
      refine APIElement.spends_readByte.bind fun n' field_count hn' => ?_
      have hstart : Collected old 0 (obj.fields.ensure_capacity field_count.toNat) :=
        ⟨[], by rw [List.append_nil]; exact (hold.ensure_capacity _).1, by simp, Nat.le_refl _⟩
      let inv (spent : Nat) (state : DecodeResult × SArray DataField) : Prop :=
        state.1 = .SUCCESS ∧ Collected old spent state.2
      have hloop := @Decoder.Spends.iterate _ _ 865 decode_field inv
        (fun spent state h => spends_decode_field h) field_count.toNat 0
        (.SUCCESS, obj.fields.ensure_capacity field_count.toNat) ⟨rfl, hstart⟩
      have hlimit : field_count.toNat * 865 ≤ 255 * 865 :=
        Nat.mul_le_mul_right _ (Nat.le_of_lt_succ field_count.toNat_lt)
      refine (hloop.imp hlimit fun _ _ _ hinv => hinv).bind_last ?_
      rintro count ⟨r, fields⟩ ⟨rfl, more, hholds, hmore, hcount⟩
      refine Decoder.Spends.pure ⟨hrep, more, hholds, hmore, ?_⟩
      dsimp only at hcount ⊢
      by_cases hnil : more = []
      · rw [if_pos hnil]
        omega
      · rw [if_neg hnil]
        omega
  exact hspends

end DataStructure

-- What a structure says to a peer.
structure StructureContents where
  element : APIContents
  sendable : element.AllSendable
  fields : List FieldContents
  length_lt : fields.length < 256

namespace StructureContents

def fieldsWire (s : StructureContents) : Bytes :=
  if s.fields = [] then []
  else UInt8.ofNat s.fields.length :: s.fields.flatMap FieldContents.wire

def wire (s : StructureContents) : Bytes :=
  s.element.wire (decide (s.fields ≠ [])) ++ s.fieldsWire

end StructureContents

namespace DataStructure

structure Represents (obj : DataStructure) (s : StructureContents) : Prop where
  element : obj.toAPIElement.Represents s.element
  fields : ∃ fields, obj.fields.Holds fields ∧ List.Forall₂ DataField.Represents fields s.fields

variable {obj ds : DataStructure} {s : StructureContents}

theorem foldl_encoded_size (fields : List DataField) (u : Nat) :
    fields.foldl (fun u f => u + f.get_encoded_size) u =
      u + (fields.map DataField.get_encoded_size).sum := by
  induction fields generalizing u with
  | nil => rfl
  | cons f fields ih => rw [List.foldl_cons, ih, List.map_cons, List.sum_cons, Nat.add_assoc]

theorem get_encoded_size_eq {fields : List DataField} (h : obj.fields.Holds fields) :
    obj.get_encoded_size = some (obj.toAPIElement.get_encoded_size +
      (if fields = [] then 0 else 1) + (fields.map DataField.get_encoded_size).sum) := by
  have hcount : (if obj.fields.size > 0 then 1 else 0) = if fields = [] then 0 else 1 := by
    rw [h.size_eq]
    cases fields <;> rfl
  simp only [DataStructure.get_encoded_size, h.elems, Option.bind_eq_bind, Option.bind_some,
    Option.pure_def, foldl_encoded_size, hcount]

theorem sum_encoded_size {fields : List DataField} {items : List FieldContents}
    (h : List.Forall₂ DataField.Represents fields items) :
    (fields.map DataField.get_encoded_size).sum = (items.flatMap FieldContents.wire).length := by
  induction h with
  | nil => rfl
  | cons hfield _ ih =>
      rw [List.map_cons, List.sum_cons, ih, hfield.get_encoded_size_eq, List.flatMap_cons,
        List.length_append]

theorem Represents.size_pos_iff (h : obj.Represents s) : obj.fields.size > 0 ↔ s.fields ≠ [] := by
  obtain ⟨fields, hholds, hrep⟩ := h.fields
  rw [hholds.size_eq, hrep.length_eq, ← List.length_pos_iff]

theorem Represents.get_encoded_size_eq (h : obj.Represents s) :
    obj.get_encoded_size = some s.wire.length := by
  obtain ⟨fields, hholds, hrep⟩ := h.fields
  have hlength := hrep.length_eq
  rw [DataStructure.get_encoded_size_eq hholds, sum_encoded_size hrep,
    h.element.get_encoded_size_eq (decide (s.fields ≠ [])), StructureContents.wire,
    StructureContents.fieldsWire, List.length_append]
  by_cases hnil : s.fields = []
  · obtain rfl : fields = [] := List.length_eq_zero_iff.mp (by rw [hlength, hnil]; rfl)
    rw [if_pos rfl, if_pos hnil, hnil]
    rfl
  · have hfields : fields ≠ [] := by
      rintro rfl
      exact hnil (List.length_eq_zero_iff.mp hlength.symm)
    rw [if_neg hfields, if_neg hnil, List.length_cons]
    congr 1
    omega

-- The flag gets into the first byte.
theorem wire_modify (element : APIContents) :
    (element.wire false).modify 0 (· ||| ELEMENT_FIELDS) = element.wire true := by
  have hmask : element.mask ||| fieldsFlag false ||| ELEMENT_FIELDS =
      element.mask ||| fieldsFlag true := by
    rw [fieldsFlag, if_neg Bool.false_ne_true, UInt8.or_zero]
    rfl
  rw [APIContents.wire, List.modify_zero_cons, hmask]
  rfl

-- The strings fill the block that is set aside for them.
theorem Represents.encode_element_eq (h : obj.Represents s) :
    obj.encode_element = some (.SUCCESS, s.element.wire (decide (s.fields ≠ []))) := by
  have hsize := h.element.get_encoded_size_eq false
  have hstored : obj.toAPIElement.encode
      (Sink.ofList (List.replicate obj.toAPIElement.get_encoded_size 0)) =
        some (.SUCCESS, ⟨s.element.wire false, []⟩) := by
    rw [h.element.stores _ (by rw [Sink.free_eq, hsize]; exact List.length_replicate.ge), hsize]
    simp [Sink.append, Sink.ofList]
  have hlength : (s.element.wire true).length = (s.element.wire false).length := rfl
  simp only [encode_element, hstored, Option.bind_eq_bind, Option.bind_some, Option.pure_def,
    Sink.data, Sink.offset, List.append_nil, wire_modify]
  by_cases hnil : s.fields = []
  · rw [if_neg (mt h.size_pos_iff.mp (not_not_intro hnil)), List.take_length,
      decide_eq_false (not_not_intro hnil)]
  · rw [if_pos (h.size_pos_iff.mpr hnil), ← hlength, List.take_length, decide_eq_true hnil]

theorem stores_encode_fields {fields : List DataField} {items : List FieldContents}
    (h : List.Forall₂ DataField.Represents fields items) :
    Stores (encode_fields fields) (items.flatMap FieldContents.wire) := by
  induction h with
  | nil => exact Encoder.Stores.pure _
  | cons hfield _ ih =>
      rw [List.flatMap_cons]
      exact hfield.stores.bind ih

theorem Represents.stores (h : obj.Represents s) : Stores obj.encode s.wire := by
  have hpos := h.size_pos_iff
  refine Encoder.Stores.lift_bind h.encode_element_eq ?_
  obtain ⟨fields, hholds, hrep⟩ := h.fields
  have hfields : Stores (if obj.fields.size > 0 then
      (write [UInt8.ofNat obj.fields.size]).andThen do
        let fields ← StateT.lift obj.fields.elems
        encode_fields fields
      else pure .SUCCESS) s.fieldsWire := by
    unfold StructureContents.fieldsWire
    by_cases hnil : s.fields = []
    · rw [if_neg (mt hpos.mp (not_not_intro hnil)), if_pos hnil]
      exact Encoder.Stores.pure _
    · rw [if_pos (hpos.mpr hnil), if_neg hnil, hholds.size_eq, hrep.length_eq]
      exact (Encoder.Stores.write _).bind
        (Encoder.Stores.lift_bind hholds.elems (stores_encode_fields hrep))
  exact (Encoder.Stores.write _).bind hfields

theorem consumes_decode_fields {fields : SArray DataField} (hempty : fields.Holds [])
    (items : List FieldContents) :
    ∃ fields', Decoder.Consumes (Decoder.iterate decode_field items.length (.SUCCESS, fields))
      (items.flatMap FieldContents.wire) (.SUCCESS, fields') ∧
        ∃ outs, fields'.Holds outs ∧ List.Forall₂ DataField.Represents outs items := by
  -- every turn succeeds and leaves the fields read so far in the array
  let inv (done : List FieldContents) (state : DecodeResult × SArray DataField) : Prop :=
    state.1 = .SUCCESS ∧ ∃ outs, state.2.Holds outs ∧ List.Forall₂ DataField.Represents outs done
  have hstep : ∀ done item state, item ∈ items → inv done state →
      ∃ state', Decoder.Consumes (decode_field state) item.wire state' ∧
        inv (done ++ [item]) state' := by
    rintro done item ⟨r, array⟩ - ⟨rfl, outs, hholds, hrep⟩
    obtain ⟨f, hdecode, hf⟩ := DataField.consumes_decode .empty item
    obtain ⟨array', hpush, hholds'⟩ := hholds.push f
    refine ⟨(.SUCCESS, array'), ?_, rfl, _, hholds', List.rel_append hrep (.cons hf .nil)⟩
    exact hdecode.bind_last ((Decoder.Consumes.lift hpush).bind_nil (Decoder.Consumes.pure _))
  obtain ⟨⟨r, fields'⟩, hloop, rfl, outs, hholds, hrep⟩ :=
    Decoder.Consumes.iterate items hstep [] (.SUCCESS, fields) ⟨rfl, [], hempty, .nil⟩
  exact ⟨fields', hloop, outs, hholds, hrep⟩

theorem consumes_decode (hold : obj.fields.Holds []) (s : StructureContents) :
    ∃ out, Decoder.Consumes obj.decode s.wire (.SUCCESS, out) ∧ out.Represents s := by
  have helement := APIElement.consumes_decode s.sendable (decide (s.fields ≠ []))
  have hflag := s.element.flag_fields (decide (s.fields ≠ []))
  by_cases hnil : s.fields = []
  · refine ⟨{ s.element.decoded with fields := obj.fields }, ?_, s.element.represents_decoded, [],
      hold, hnil ▸ .nil⟩
    refine Decoder.Consumes.peek (helement.bind ?_)
    dsimp only
    rw [if_neg (not_not_intro rfl), if_pos (hflag.mpr (decide_eq_false (not_not_intro hnil))),
      StructureContents.fieldsWire, if_pos hnil]
    exact Decoder.Consumes.pure _
  · have hcount : (UInt8.ofNat s.fields.length).toNat = s.fields.length :=
      toNat_ofNat_length s.length_lt
    obtain ⟨fields, hloop, outs, hholds, hrep⟩ := consumes_decode_fields
      (hold.ensure_capacity (UInt8.ofNat s.fields.length).toNat).1 s.fields
    refine ⟨{ s.element.decoded with fields }, ?_, s.element.represents_decoded, outs, hholds, hrep⟩
    refine Decoder.Consumes.peek (helement.bind ?_)
    have hset : ¬decide (s.fields ≠ []) = false := by simp [hnil]
    dsimp only
    rw [if_neg (not_not_intro rfl), if_neg (mt hflag.mp hset), StructureContents.fieldsWire,
      if_neg hnil]
    refine (APIElement.consumes_readByte _).bind ?_
    rw [hcount] at hloop ⊢
    exact hloop.bind_last (Decoder.Consumes.pure _)

theorem eq_iff : obj.eq ds = some true ↔ obj.toAPIElement.eq ds.toAPIElement = some true ∧
    obj.fields.size = ds.fields.size ∧
      eqEach DataField.eq obj.fields ds.fields obj.fields.size = some true := by
  rw [DataStructure.eq, DataDeclaration.and_then_iff]
  by_cases hsize : obj.fields.size = ds.fields.size
  · rw [if_pos hsize, and_iff_right hsize]
  · rw [if_neg hsize]
    simp [hsize]

theorem Represents.eq (h : obj.Represents s) (h' : ds.Represents s) : obj.eq ds = some true := by
  obtain ⟨fields, hholds, hrep⟩ := h.fields
  obtain ⟨fields', hholds', hrep'⟩ := h'.fields
  have hsame : List.Forall₂ (fun f g => DataField.eq f g = some true) fields fields' :=
    forall₂_join (fun _ _ _ hf hg => hf.eq hg) hrep hrep'
  refine eq_iff.mpr ⟨h.element.eq h'.element s.sendable, ?_, ?_⟩
  · rw [hholds.size_eq, hholds'.size_eq, hsame.length_eq]
  · rw [hholds.size_eq]
    exact eqEach_eq (.inl hholds) (.inl hholds') hsame

end DataStructure

end RoboCrisp.Comms
