import RoboCrisp.Comms.DataDeclaration.Lemmas

namespace RoboCrisp.Comms

open RoboCrisp.Stream RoboCrisp.Util

theorem toNat_ofNat_length {α : Type} {elements : List α} (h : elements.length < 256) :
    (UInt8.ofNat elements.length).toNat = elements.length := by
  rw [UInt8.toNat_ofNat', Nat.mod_eq_of_lt h]

theorem eq_ofNat_length {α : Type} {count : UInt8} {elements : List α}
    (h : count.toNat = elements.length) : count = UInt8.ofNat elements.length := by
  apply UInt8.toNat_inj.mp
  rw [h, toNat_ofNat_length (by rw [← h]; exact count.toNat_lt)]

section Names

variable {name : Option Bytes} {name_length : UInt8} {chars : Bytes}

theorem nameIs_nil (name : Option Bytes) : NameIs name 0 [] := ⟨rfl, fun h => absurd rfl h⟩

-- A name that a C string gave, cut off where the length does not fit a byte.
theorem nameIs_ofName (name : Option CString) :
    ∃ chars, NameIs (name.map CString.block) (nameLength name) chars ∧ 0 ∉ chars := by
  cases name with
  | none => exact ⟨[], nameIs_nil _, List.not_mem_nil⟩
  | some string =>
      have hlength : (UInt8.ofNat string.chars.length).toNat ≤ string.chars.length := by
        rw [UInt8.toNat_ofNat']
        exact Nat.mod_le _ _
      have hpre : string.chars.take (UInt8.ofNat string.chars.length).toNat <+: string.block :=
        (List.take_prefix _ _).trans (List.prefix_append _ _)
      refine ⟨_, ⟨?_, fun _ => ⟨string.block, rfl, hpre⟩⟩,
        fun h => string.no_nul (List.mem_of_mem_take h)⟩
      simp only [nameLength, strlen, List.length_take]
      omega

theorem NameIs.prefix_of {block : Bytes} (h : NameIs (some block) name_length chars) :
    chars <+: block := by
  by_cases hchars : chars = []
  · rw [hchars]
    exact List.nil_prefix
  · obtain ⟨_, hb, hpre⟩ := h.2 hchars
    rwa [Option.some.inj hb]

theorem NameIs.prefix_getD (h : NameIs name name_length chars) : chars <+: name.getD [] := by
  cases name with
  | some block => exact h.prefix_of
  | none =>
      by_cases hchars : chars = []
      · rw [hchars]
        exact List.nil_prefix
      · obtain ⟨_, hnone, -⟩ := h.2 hchars
        exact absurd hnone (by simp)

theorem NameIs.unique {other : Bytes} (h : NameIs name name_length chars)
    (h' : NameIs name name_length other) : chars = other := by
  have hlength : chars.length = other.length := h.1.symm.trans h'.1
  by_cases hchars : chars = []
  · rw [hchars] at hlength ⊢
    exact (List.length_eq_zero_iff.mp hlength.symm).symm
  · obtain ⟨block, hname, hpre⟩ := h.2 hchars
    rw [hname] at h'
    exact List.prefix_iff_eq_take.mp hpre |>.trans
      (hlength ▸ (List.prefix_iff_eq_take.mp h'.prefix_of).symm)

theorem NameIs.strncpy_eq {block : Bytes} (h : NameIs (some block) name_length chars)
    (hnul : 0 ∉ chars) : strncpy block name_length.toNat = some chars := by
  rw [h.1]
  exact strncpy_of_prefix h.prefix_of hnul

theorem NameIs.copied (h : NameIs name name_length chars) : NameIs (some chars) name_length chars :=
  ⟨h.1, fun _ => ⟨chars, rfl, List.prefix_rfl⟩⟩

theorem consumes_decodeName [Heap] (h : name_length.toNat = chars.length) :
    Decoder.Consumes (decodeName name_length) chars (chars ++ [0]) :=
  (Decoder.Consumes.read h.symm).bind_last (Decoder.Consumes.pure _)

theorem nameIs_of_length {block : Bytes} (h : block.length = name_length.toNat) :
    NameIs (some block) name_length block :=
  ⟨h.symm, fun _ => ⟨block, rfl, List.prefix_rfl⟩⟩

-- What becomes of a name in a copy of the object.
inductive NameCopied (owns_name : Bool) (name_length : UInt8) (name : Option Bytes) :
    Option Bytes → Prop
  | shared (h : owns_name = false ∨ name = none) : NameCopied owns_name name_length name name
  | owned {source copy : Bytes} (howns : owns_name = true) (hname : name = some source)
      (hcopy : strncpy source name_length.toNat = some copy) :
      NameCopied owns_name name_length name (some copy)

theorem NameCopied.exists_nameIs {owns_name : Bool} {name' : Option Bytes}
    (h : NameCopied owns_name name_length name name') (hname : ∃ chars, NameIs name name_length chars) :
    ∃ chars, NameIs name' name_length chars := by
  cases h with
  | shared _ => exact hname
  | owned _ _ hcopy => exact ⟨_, nameIs_of_length (length_strncpy hcopy)⟩

-- What is not there to read leaves what the block held.
theorem yields_decodeName [Heap] (name_length : UInt8) :
    Decoder.Yields (decodeName name_length) fun block =>
      ∃ chars, NameIs (some block) name_length chars := by
  refine (Decoder.Yields.read name_length.toNat).bind fun bytes hbytes => ?_
  cases bytes with
  | none =>
      exact Decoder.Yields.pure ⟨Heap.alloc name_length.toNat, (Heap.length_alloc _).symm,
        fun _ => ⟨_, rfl, List.prefix_append _ _⟩⟩
  | some bytes =>
      exact Decoder.Yields.pure ⟨bytes, (hbytes bytes rfl).symm,
        fun _ => ⟨_, rfl, List.prefix_append _ _⟩⟩

end Names

namespace NamedTyped

variable {obj out : NamedTyped} {s : NamedContents}

theorem Represents.emits (h : obj.Represents s) {header : Bytes} {size : Nat}
    (hsize : (header ++ s.rest).length = size) :
    Emits (obj.encode size header) [⟨header ++ s.rest, true⟩] := by
  refine Encoder.Emits.of_guard ?_ hsize
  have hheader : Stores (write header) header := Encoder.Stores.write header
  have htail : Stores obj.data_type.encode_tail s.data_type.tail := by
    rw [← DataDeclaration.wire_tailPieces]
    exact h.data_type.emits_tail.stores
  have hname : Stores (writeName obj.name obj.name_length) s.name := by
    rw [h.name.writeName_eq]
    exact Encoder.Stores.write s.name
  have hlast : Stores (do let _ ← writeName obj.name obj.name_length; return .SUCCESS) s.name := by
    rw [← List.append_nil s.name]
    exact hname.bind (Encoder.Stores.pure _)
  exact hheader.bind (htail.bind hlast)

-- The tail and the name behind a header that was read into `out`.
theorem consumes_decode_rest [Heap] (hdata : DataDeclaration.HeaderSays out.data_type s.data_type)
    (hlength : out.name_length = UInt8.ofNat s.name.length) :
    ∃ out', Decoder.Consumes out.decode_rest s.rest out' ∧ out'.Represents s := by
  obtain ⟨data_type, htail, hrep⟩ := hdata.consumes_decode_tail
  have hnat : out.name_length.toNat = s.name.length := by
    rw [hlength, toNat_ofNat_length s.name_length_lt]
  by_cases hzero : out.name_length = 0
  · have hnil : s.name = [] := List.length_eq_zero_iff.mp (by rw [← hnat, hzero]; rfl)
    refine ⟨{ out with data_type }, ?_, hrep, ?_⟩
    · unfold decode_rest NamedContents.rest
      rw [hnil]
      refine htail.bind ?_
      simp only [hzero, ne_eq, not_true_eq_false, ite_false]
      exact Decoder.Consumes.pure _
    · simpa only [hzero, hnil] using nameIs_nil out.name
  · refine ⟨{ out with data_type, name := some (s.name ++ [0]), owns_name := true }, ?_, hrep,
      hnat, fun _ => ⟨_, rfl, List.prefix_append _ _⟩⟩
    unfold decode_rest NamedContents.rest
    refine htail.bind ?_
    simp only [ne_eq, hzero, not_false_eq_true, ite_true]
    exact (consumes_decodeName hnat).bind_last (Decoder.Consumes.pure _)

theorem copy_cases (h : obj.copy = some out) :
    ∃ name, NameCopied obj.owns_name obj.name_length obj.name name ∧ out = { obj with name } := by
  unfold NamedTyped.copy at h
  split at h
  · rename_i hnone
    exact ⟨obj.name, .shared (.inr hnone), (Option.some.inj h).symm⟩
  · rename_i block hblock
    by_cases howns : obj.owns_name = true
    · rw [if_pos howns] at h
      obtain ⟨name, hname, h⟩ := Option.bind_eq_some_iff.mp h
      exact ⟨_, .owned howns hblock hname, (Option.some.inj h).symm⟩
    · rw [if_neg howns] at h
      exact ⟨obj.name, .shared (.inl (Bool.eq_false_of_not_eq_true howns)), (Option.some.inj h).symm⟩

-- What the constructors make of a declaration and a C string.
structure Plain (Declared : DataDeclaration → Prop) (obj : NamedTyped) : Prop where
  data_type : Declared obj.data_type
  name : ∃ chars, NameIs obj.name obj.name_length chars ∧ 0 ∉ chars

variable {Declared : DataDeclaration → Prop}

theorem plain_ofName (name : Option CString) {data_type : DataDeclaration} (owns_name : Bool)
    (h : Declared data_type) : (ofName name data_type owns_name).Plain Declared :=
  ⟨h, nameIs_ofName name⟩

-- An owned name is copied to a block of its own, without losing a character.
theorem Plain.copy (h : obj.Plain Declared) :
    ∃ copy, obj.copy = some copy ∧ copy.Plain Declared := by
  obtain ⟨hdata, chars, hname, hnul⟩ := h
  unfold NamedTyped.copy
  cases hblock : obj.name with
  | none => exact ⟨obj, rfl, hdata, chars, hname, hnul⟩
  | some block =>
      by_cases howns : obj.owns_name = true
      · rw [hblock] at hname
        exact ⟨{ obj with name := some chars }, by simp [howns, hname.strncpy_eq hnul], hdata,
          chars, hname.copied, hnul⟩
      · exact ⟨obj, if_neg howns, hdata, chars, hname, hnul⟩

theorem Plain.exists_represents (h : obj.Plain DataDeclaration.Sound) : ∃ s, obj.Represents s := by
  obtain ⟨data_type, hdata⟩ := h.data_type.exists_represents
  obtain ⟨chars, hname, -⟩ := h.name
  exact ⟨⟨chars, by rw [← hname.1]; exact obj.name_length.toNat_lt, data_type⟩, hdata, hname⟩

end NamedTyped

namespace ModuleInput

variable {mi : ModuleInput} {s : InputContents}

theorem length_header (s : InputContents) : s.header.length = HeaderSize := by
  simp only [InputContents.header, HeaderSize, List.length_cons, DataDeclaration.length_header]
  omega

theorem Represents.header_eq (h : mi.Represents s) : mi.header = s.header := by
  rw [header, InputContents.header, h.input_id_eq, eq_ofNat_length h.named.name.1,
    h.named.data_type.header_eq]

theorem Represents.get_encoded_size_eq (h : mi.Represents s) :
    mi.get_encoded_size = s.wire.length := by
  rw [get_encoded_size, get_tail_size, get_name_length, h.named.name.1,
    h.named.data_type.get_tail_size_eq, InputContents.wire, NamedContents.rest,
    List.length_append, List.length_append, length_header]
  omega

theorem Represents.emits (h : mi.Represents s) : Emits mi.encode [⟨s.wire, true⟩] := by
  unfold encode
  rw [h.header_eq]
  exact h.named.emits h.get_encoded_size_eq.symm

theorem consumes_decode_copy [Heap] (s : InputContents) :
    ∃ out, Decoder.Consumes decode_copy s.wire out ∧ out.Represents s := by
  have hdata : DataDeclaration.HeaderSays (empty.withHeader s.header).data_type s.data_type :=
    DataDeclaration.headerSays_withHeader _ _
  obtain ⟨rest, hrest, hrep⟩ := NamedTyped.consumes_decode_rest hdata
    (show (empty.withHeader s.header).name_length = UInt8.ofNat s.name.length from rfl)
  refine ⟨{ empty.withHeader s.header with toNamedTyped := rest }, ?_, hrep, rfl⟩
  exact (Decoder.Consumes.read (length_header s)).bind (hrest.bind_last (Decoder.Consumes.pure _))

theorem exists_represents (h : ∃ s, mi.toNamedTyped.Represents s) :
    ∃ item : InputContents, mi.Represents item := by
  obtain ⟨s, hs⟩ := h
  exact ⟨⟨s, mi.input_id⟩, hs, rfl⟩

end ModuleInput

namespace Sensor

variable {obj : Sensor} {s : SensorContents}

theorem headerBits_lt (id : BitVec 10) (type : BitVec 5) (reporting_mode : BitVec 1) :
    headerBits id type reporting_mode < 256 ^ 2 := by
  have hid := id.isLt
  have htype := type.isLt
  have hmode := reporting_mode.isLt
  simp only [headerBits]
  omega

theorem length_header (s : SensorContents) : s.header.length = HeaderSize := by
  simp only [SensorContents.header, HeaderSize, List.length_append, List.length_cons,
    length_littleEndian, DataDeclaration.length_header]
  omega

theorem Represents.header_eq (h : obj.Represents s) : obj.header = s.header := by
  rw [header, SensorContents.header, h.id_eq, h.type_eq, h.reporting_mode_eq,
    eq_ofNat_length h.named.name.1, h.named.data_type.header_eq]

theorem Represents.get_name_length_eq (h : obj.Represents s) :
    obj.get_name_length = s.name.length := by
  obtain ⟨hlength, hblock⟩ := h.named.name
  unfold get_name_length
  by_cases hchars : s.name = []
  · rw [hlength, hchars]
    exact ite_self 0
  · obtain ⟨block, hname, -⟩ := hblock hchars
    rw [if_pos (by rw [hname]; rfl), hlength]

theorem Represents.get_encoded_size_eq (h : obj.Represents s) :
    obj.get_encoded_size = s.wire.length := by
  rw [get_encoded_size, get_tail_size, h.get_name_length_eq, h.named.data_type.get_tail_size_eq,
    SensorContents.wire, NamedContents.rest, List.length_append, List.length_append, length_header]
  omega

theorem Represents.emits (h : obj.Represents s) : Emits obj.encode [⟨s.wire, true⟩] := by
  unfold encode
  rw [h.header_eq]
  exact h.named.emits h.get_encoded_size_eq.symm

theorem withHeader_header (out : Sensor) (s : SensorContents) :
    out.withHeader s.header = { out with
      id := s.id
      type := s.type
      reporting_mode := s.reporting_mode
      name_length := UInt8.ofNat s.name.length
      data_type := out.data_type.withHeader s.data_type.header } := by
  have hbits : ofLittleEndian (littleEndian 2 (headerBits s.id s.type s.reporting_mode)) =
      headerBits s.id s.type s.reporting_mode :=
    ofLittleEndian_littleEndian_of_lt (headerBits_lt _ _ _)
  have hid := s.id.isLt
  have htype := s.type.isLt
  have hmode := s.reporting_mode.isLt
  have hidb : BitVec.ofNat 10 (headerBits s.id s.type s.reporting_mode) = s.id := by
    apply BitVec.eq_of_toNat_eq
    rw [BitVec.toNat_ofNat, headerBits]
    omega
  have htypeb : BitVec.ofNat 5 (headerBits s.id s.type s.reporting_mode / 2 ^ 10) = s.type := by
    apply BitVec.eq_of_toNat_eq
    rw [BitVec.toNat_ofNat, headerBits]
    omega
  have hmodeb : BitVec.ofNat 1 (headerBits s.id s.type s.reporting_mode / 2 ^ 15) =
      s.reporting_mode := by
    apply BitVec.eq_of_toNat_eq
    rw [BitVec.toNat_ofNat, headerBits]
    omega
  simp only [littleEndian] at hbits
  simp only [SensorContents.header, littleEndian, List.cons_append, List.nil_append, withHeader,
    hbits, hidb, htypeb, hmodeb]

theorem consumes_decode_copy [Heap] (s : SensorContents) :
    ∃ out, Decoder.Consumes decode_copy s.wire out ∧ out.Represents s := by
  have hdata : DataDeclaration.HeaderSays (empty.withHeader s.header).data_type s.data_type := by
    rw [withHeader_header]
    exact DataDeclaration.headerSays_withHeader _ _
  have hlength : (empty.withHeader s.header).name_length = UInt8.ofNat s.name.length := by
    rw [withHeader_header]
  obtain ⟨rest, hrest, hrep⟩ := NamedTyped.consumes_decode_rest hdata hlength
  refine ⟨{ empty.withHeader s.header with toNamedTyped := rest }, ?_, hrep, ?_, ?_, ?_⟩
  · exact (Decoder.Consumes.read (length_header s)).bind (hrest.bind_last (Decoder.Consumes.pure _))
  · rw [withHeader_header]
  · rw [withHeader_header]
  · rw [withHeader_header]

theorem exists_represents (h : ∃ s, obj.toNamedTyped.Represents s) :
    ∃ item : SensorContents, obj.Represents item := by
  obtain ⟨s, hs⟩ := h
  exact ⟨⟨s, obj.id, obj.type, obj.reporting_mode⟩, hs, rfl, rfl, rfl⟩

end Sensor

section Spelled

-- There is all that the length of the name announces.

namespace NamedTyped

variable {obj out : NamedTyped}

def Spelled (obj : NamedTyped) : Prop := ∃ chars, NameIs obj.name obj.name_length chars

theorem spelled_ofName (name : Option CString) (data_type : DataDeclaration) (owns_name : Bool) :
    (ofName name data_type owns_name).Spelled := by
  obtain ⟨chars, hname, -⟩ := nameIs_ofName name
  exact ⟨chars, hname⟩

theorem Spelled.copy (h : obj.Spelled) (hcopy : obj.copy = some out) : out.Spelled := by
  obtain ⟨name, hcopied, rfl⟩ := copy_cases hcopy
  exact hcopied.exists_nameIs h

theorem yields_decode_rest [Heap] (out : NamedTyped) : Decoder.Yields out.decode_rest Spelled := by
  unfold decode_rest
  refine Decoder.Yields.bind_any fun tail => ?_
  dsimp only
  split
  · exact (yields_decodeName out.name_length).bind fun name hname => Decoder.Yields.pure hname
  · rename_i hzero
    refine Decoder.Yields.pure ⟨[], ?_⟩
    rw [show out.name_length = 0 from not_not.mp hzero]
    exact nameIs_nil out.name

end NamedTyped

theorem ModuleInput.spelled_copy (v w : ModuleInput) (h : v.toNamedTyped.Spelled)
    (hcopy : v.copy = some w) : w.toNamedTyped.Spelled := by
  obtain ⟨named, hnamed, hcopy⟩ := Option.bind_eq_some_iff.mp hcopy
  obtain rfl := Option.some.inj hcopy
  exact h.copy hnamed

theorem Sensor.spelled_copy (v w : Sensor) (h : v.toNamedTyped.Spelled) (hcopy : v.copy = some w) :
    w.toNamedTyped.Spelled := by
  obtain ⟨named, hnamed, hcopy⟩ := Option.bind_eq_some_iff.mp hcopy
  obtain rfl := Option.some.inj hcopy
  exact h.copy hnamed

theorem ModuleInput.yields_spelled [Heap] :
    Decoder.Yields ModuleInput.decode_copy fun v => v.toNamedTyped.Spelled := by
  refine Decoder.Yields.bind_any fun header => ?_
  exact (NamedTyped.yields_decode_rest _).bind fun rest hrest => Decoder.Yields.pure hrest

theorem Sensor.yields_spelled [Heap] :
    Decoder.Yields Sensor.decode_copy fun v => v.toNamedTyped.Spelled := by
  refine Decoder.Yields.bind_any fun header => ?_
  exact (NamedTyped.yields_decode_rest _).bind fun rest hrest => Decoder.Yields.pure hrest

end Spelled

end RoboCrisp.Comms
