import RoboCrisp.Comms.NamedTyped.Lifetime

namespace RoboCrisp.Comms

open RoboCrisp.Stream RoboCrisp.Util

-- Either everything is written, and it has the size that was announced, or nothing is.
def AllOrNothing (encode : Encode) (size : Nat) : Prop :=
  ∀ buf, (∃ bytes, bytes.length = size ∧ encode buf = some (.SUCCESS, buf.append bytes)) ∨
    encode buf = some (.INSUFFICIENT_SPACE, buf)

-- The assertion on the size holds for each element of an array.
theorem exists_encodeEach {α : Type} {encode : α → Encode} {get_encoded_size : α → Nat}
    {elements : List α} (h : ∀ v ∈ elements, AllOrNothing (encode v) (get_encoded_size v))
    (buf : MemoryEncodeBuffer) : ∃ result, encodeEach encode get_encoded_size elements buf = some result := by
  induction elements generalizing buf with
  | nil => exact ⟨_, rfl⟩
  | cons v elements ih =>
      rw [encodeEach, get_bind_apply, bind_apply]
      obtain ⟨bytes, hlength, hencode⟩ | hencode := h v List.mem_cons_self buf
      · obtain ⟨result, hresult⟩ := ih (fun w hw => h w (List.mem_cons_of_mem _ hw)) (buf.append bytes)
        refine ⟨result, ?_⟩
        rw [hencode, Option.bind_some, if_neg (not_not_intro rfl), get_bind_apply,
          if_pos (by rw [Sink.offset_append, hlength, Nat.add_sub_cancel_left])]
        exact hresult
      · refine ⟨(.INSUFFICIENT_SPACE, buf), ?_⟩
        rw [hencode]
        rfl

-- What is written of a name.
def writtenName (name : Option Bytes) (name_length : UInt8) : Option Bytes :=
  match name with
  | none => some []
  | some block => load block name_length.toNat

theorem writeName_eq (name : Option Bytes) (name_length : UInt8) :
    writeName name name_length = (do
      let bytes ← StateT.lift (writtenName name name_length)
      write bytes) := by
  cases name with
  | none => exact write_nil.symm
  | some block =>
      rw [writeName, writtenName]
      by_cases hzero : name_length = 0
      · have hload : load block 0 = some [] := by rw [load, if_pos (Nat.zero_le _), List.take_zero]
        rw [if_neg (not_not_intro hzero), hzero, UInt8.toNat_zero, hload]
        exact write_nil.symm
      · rw [if_pos hzero]

theorem length_writtenName {name : Option Bytes} {name_length : UInt8} {bytes : Bytes}
    (h : writtenName name name_length = some bytes) :
    bytes.length = if name.isSome then name_length.toNat else 0 := by
  cases name with
  | none =>
      obtain rfl := Option.some.inj h
      rfl
  | some block =>
      obtain ⟨hle, hbytes⟩ := Option.ite_none_right_eq_some.mp h
      rw [← Option.some.inj hbytes, List.length_take, Nat.min_eq_left hle]
      rfl

theorem readable_iff_written {name : Option Bytes} {name_length : UInt8} :
    Readable name name_length ↔ ∃ bytes, writtenName name name_length = some bytes := by
  cases name with
  | none => exact ⟨fun _ => ⟨[], rfl⟩, fun _ => .inl rfl⟩
  | some block =>
      constructor
      · rintro (hnone | ⟨chars, hname⟩)
        · cases hnone
        · exact ⟨chars, by rw [writtenName, hname.1]; exact load_of_prefix hname.prefix_of⟩
      · rintro ⟨bytes, hbytes⟩
        have hlength : bytes.length = name_length.toNat := length_writtenName hbytes
        obtain ⟨-, htake⟩ := Option.ite_none_right_eq_some.mp hbytes
        refine .inr ⟨bytes, hlength.symm, fun _ => ⟨block, rfl, ?_⟩⟩
        rw [← Option.some.inj htake]
        exact List.take_prefix _ _

namespace NamedTyped

variable {obj : NamedTyped} {header : Bytes} {size : Nat}

-- The three writes behind the check of the space, when there is room for them.
theorem encode_of_room (header : Bytes) (size : Nat) (hwidth : obj.data_type.width.toNat ≤ 16) :
    ∃ tail, tail.length = obj.data_type.get_tail_size ∧ ∀ buf : MemoryEncodeBuffer, size ≤ buf.free →
      (∀ bytes, writtenName obj.name obj.name_length = some bytes →
        (header ++ (tail ++ bytes)).length ≤ buf.free →
        obj.encode size header buf = some (.SUCCESS, buf.append (header ++ (tail ++ bytes)))) ∧
      (writtenName obj.name obj.name_length = none → (header ++ tail).length ≤ buf.free →
        obj.encode size header buf = none) := by
  obtain ⟨s, hs⟩ := (show obj.data_type.Sound from fun _ => hwidth).exists_represents
  refine ⟨s.tail, hs.get_tail_size_eq.symm, fun buf hroom => ?_⟩
  have hheader : Stores (write header) header := Encoder.Stores.write header
  have htail : Stores obj.data_type.encode_tail s.tail := by
    rw [← DataDeclaration.wire_tailPieces]
    exact hs.emits_tail.stores
  have hguard : ¬buf.length - buf.offset < size := Nat.not_lt.mpr hroom
  rw [encode, get_bind_apply, if_neg hguard]
  refine ⟨fun bytes hname hfits => ?_, fun hname hfits => ?_⟩
  · have hlast : Stores (do let _ ← writeName obj.name obj.name_length; return .SUCCESS) bytes := by
      have hwrite : Stores (writeName obj.name obj.name_length) bytes := by
        rw [writeName_eq, hname]
        exact Encoder.Stores.write bytes
      rw [← List.append_nil bytes]
      exact hwrite.bind (Encoder.Stores.pure _)
    exact hheader.bind (htail.bind hlast) buf hfits
  · rw [List.length_append] at hfits
    rw [bind_apply, hheader buf (by omega), Option.bind_some, bind_apply,
      htail _ (by rw [Sink.free_append]; omega), Option.bind_some, bind_apply, writeName_eq, hname]
    rfl

theorem encode_of_no_room {buf : MemoryEncodeBuffer} (h : buf.free < size) :
    obj.encode size header buf = some (.INSUFFICIENT_SPACE, buf) := by
  rw [encode, get_bind_apply, if_pos (show buf.length - buf.offset < size from h)]
  rfl

-- Everything hangs on what is announced for the name.
theorem allOrNothing_iff (announced : Nat) (hwidth : obj.data_type.width.toNat ≤ 16)
    (hsize : size = header.length + (announced + obj.data_type.get_tail_size)) :
    AllOrNothing (obj.encode size header) size ↔
      ∃ bytes, writtenName obj.name obj.name_length = some bytes ∧ bytes.length = announced := by
  obtain ⟨tail, htail, hencode⟩ := encode_of_room header size hwidth
  constructor
  · intro h
    let buf : MemoryEncodeBuffer := Sink.ofList (List.replicate (size + 256) 0)
    have hfree : buf.free = size + 256 := by
      rw [Sink.free_eq]
      simp [buf, Sink.ofList]
    obtain ⟨hstores, hfails⟩ := hencode buf (by omega)
    cases hname : writtenName obj.name obj.name_length with
    | none =>
        have hnone := hfails hname (by rw [List.length_append]; omega)
        obtain ⟨bytes, -, hsome⟩ | hsome := h buf
        · rw [hnone] at hsome
          cases hsome
        · rw [hnone] at hsome
          cases hsome
    | some bytes =>
        refine ⟨bytes, rfl, ?_⟩
        have hle : bytes.length < 256 := by
          have hlt := obj.name_length.toNat_lt
          rw [length_writtenName hname]
          split <;> omega
        have hdone := hstores bytes hname (by simp only [List.length_append]; omega)
        obtain ⟨written, hlength, hsome⟩ | hsome := h buf
        · rw [hdone] at hsome
          have hsame := Sink.append_inj.mp (Prod.mk.inj (Option.some.inj hsome)).2
          rw [← hsame] at hlength
          simp only [List.length_append] at hlength
          omega
        · rw [hdone] at hsome
          exact absurd (Prod.mk.inj (Option.some.inj hsome)).1 (by decide)
  · rintro ⟨bytes, hname, hbytes⟩ buf
    by_cases hroom : size ≤ buf.free
    · have hlength : (header ++ (tail ++ bytes)).length = size := by
        simp only [List.length_append]
        omega
      exact .inl ⟨_, hlength, (hencode buf hroom).1 bytes hname (by rw [hlength]; exact hroom)⟩
    · exact .inr (encode_of_no_room (Nat.lt_of_not_le hroom))

end NamedTyped

theorem DataDeclaration.length_own_header (obj : DataDeclaration) : obj.header.length = HeaderSize :=
  length_littleEndian _ _

theorem ModuleInput.allOrNothing_iff {mi : ModuleInput} (hwidth : mi.data_type.width.toNat ≤ 16) :
    AllOrNothing mi.encode mi.get_encoded_size ↔ mi.toNamedTyped.Spelled := by
  have hheader : mi.header.length = HeaderSize := by
    rw [header, List.length_cons, List.length_cons, DataDeclaration.length_own_header, HeaderSize]
    omega
  rw [encode, NamedTyped.allOrNothing_iff mi.get_name_length hwidth
    (by rw [hheader]; rfl)]
  constructor
  · rintro ⟨bytes, hbytes, hlength⟩
    obtain hnone | hspelled := readable_iff_written.mpr ⟨bytes, hbytes⟩
    · rw [length_writtenName hbytes, hnone] at hlength
      exact ⟨[], hlength.symm, fun hne => absurd rfl hne⟩
    · exact hspelled
  · rintro ⟨chars, hname⟩
    obtain ⟨bytes, hbytes⟩ := readable_iff_written.mp (.inr ⟨chars, hname⟩)
    refine ⟨bytes, hbytes, ?_⟩
    rw [length_writtenName hbytes]
    cases hblock : mi.name with
    | some block => rfl
    | none =>
        by_cases hchars : chars = []
        · exact (by rw [hname.1, hchars]; rfl : mi.name_length.toNat = 0).symm
        · obtain ⟨_, hsome, -⟩ := hname.2 hchars
          rw [hblock] at hsome
          cases hsome

theorem Sensor.allOrNothing_iff {s : Sensor} (hwidth : s.data_type.width.toNat ≤ 16) :
    AllOrNothing s.encode s.get_encoded_size ↔ Readable s.name s.name_length := by
  have hheader : s.header.length = HeaderSize := by
    rw [header, List.length_append, length_littleEndian, List.length_cons,
      DataDeclaration.length_own_header, HeaderSize]
    omega
  rw [encode, NamedTyped.allOrNothing_iff s.get_name_length hwidth
    (by rw [hheader]; rfl), readable_iff_written]
  exact exists_congr fun bytes => and_iff_left_of_imp length_writtenName

section Reached

variable [Heap]

theorem ModuleInput.Reached.spelled_iff {mi : ModuleInput} (h : mi.Reached) :
    mi.toNamedTyped.Spelled ↔ (mi.name = none → mi.name_length = 0) := by
  constructor
  · rintro ⟨chars, hlength, hblock⟩ hnone
    by_cases hchars : chars = []
    · rw [hchars] at hlength
      exact UInt8.toNat_inj.mp hlength
    · obtain ⟨_, hsome, -⟩ := hblock hchars
      rw [hnone] at hsome
      cases hsome
  · intro hempty
    obtain hnone | hspelled := h.readable
    · exact ⟨[], by rw [hempty hnone]; exact nameIs_nil _⟩
    · exact hspelled

-- An input announces a name that it has no pointer to any more. A sensor only gives one up when the
-- name has gone with another object.
theorem elements_all_or_nothing :
    (∀ mi : ModuleInput, mi.Reached → mi.data_type.width.toNat ≤ 16 →
      (AllOrNothing mi.encode mi.get_encoded_size ↔ (mi.name = none → mi.name_length = 0))) ∧
    (∀ s : Sensor, s.Reached → s.data_type.width.toNat ≤ 16 →
      (AllOrNothing s.encode s.get_encoded_size ↔ Readable s.name s.name_length) ∧
        (s.owns_name = true → AllOrNothing s.encode s.get_encoded_size)) ∧
    (∀ inputs : List ModuleInput,
      (∀ mi ∈ inputs, mi.Reached ∧ mi.data_type.width.toNat ≤ 16 ∧
        (mi.name = none → mi.name_length = 0)) →
      ∀ buf, ∃ result,
        encodeEach ModuleInput.encode ModuleInput.get_encoded_size inputs buf = some result) ∧
    ∀ sensors : List Sensor,
      (∀ s ∈ sensors, s.Reached ∧ s.data_type.width.toNat ≤ 16 ∧ Readable s.name s.name_length) →
      ∀ buf, ∃ result, encodeEach Sensor.encode Sensor.get_encoded_size sensors buf = some result := by
  refine ⟨fun mi hmi hwidth => ?_, fun s hs hwidth => ?_, fun inputs hinputs => ?_,
    fun sensors hsensors => ?_⟩
  · rw [ModuleInput.allOrNothing_iff hwidth, hmi.spelled_iff]
  · exact ⟨Sensor.allOrNothing_iff hwidth,
      fun howns => (Sensor.allOrNothing_iff hwidth).mpr (hs.readable howns)⟩
  · refine exists_encodeEach fun mi hmem => ?_
    obtain ⟨hmi, hwidth, hname⟩ := hinputs mi hmem
    exact (ModuleInput.allOrNothing_iff hwidth).mpr (hmi.spelled_iff.mpr hname)
  · refine exists_encodeEach fun s hmem => ?_
    obtain ⟨-, hwidth, hname⟩ := hsensors s hmem
    exact (Sensor.allOrNothing_iff hwidth).mpr hname

end Reached

-- An input called "a".
def letter : ModuleInput := ModuleInput.declare (some ⟨[97], by decide⟩) 0 .empty false

theorem letter_all_or_nothing :
    AllOrNothing letter.encode letter.get_encoded_size ∧
      AllOrNothing Sensor.empty.encode Sensor.empty.get_encoded_size ∧
      (∀ buf, ∃ result, encodeEach ModuleInput.encode ModuleInput.get_encoded_size [letter] buf = some result) ∧
      ∀ buf, ∃ result, encodeEach Sensor.encode Sensor.get_encoded_size [Sensor.empty] buf = some result := by
  let _ := Heap.zeros
  obtain ⟨hinput, hsensor, hinputs, hsensors⟩ := elements_all_or_nothing
  refine ⟨(hinput letter (.declare _ _ _ _) (by decide)).mpr nofun,
    (hsensor Sensor.empty .empty (by decide)).1.mpr (.inl rfl), hinputs [letter] ?_,
    hsensors [Sensor.empty] ?_⟩
  · intro mi hmem
    obtain rfl := List.mem_singleton.mp hmem
    exact ⟨.declare _ _ _ _, by decide, nofun⟩
  · intro s hmem
    obtain rfl := List.mem_singleton.mp hmem
    exact ⟨.empty, by decide, .inl rfl⟩

-- After reset() the length is still announced, but there is nothing to write.
theorem reset_not_all_or_nothing :
    ¬∀ mi : ModuleInput, @ModuleInput.Reached Heap.zeros mi → mi.data_type.width.toNat ≤ 16 →
      AllOrNothing mi.encode mi.get_encoded_size := by
  let _ := Heap.zeros
  intro h
  have hreset := h letter.reset (.reset (.declare _ _ _ _)) (by decide)
  obtain ⟨chars, hlength, hblock⟩ := (ModuleInput.allOrNothing_iff (by decide)).mp hreset
  have hne : chars ≠ [] := fun hnil => absurd (hlength.trans (by rw [hnil])) (by decide)
  obtain ⟨_, hsome, -⟩ := hblock hne
  cases hsome

end RoboCrisp.Comms
