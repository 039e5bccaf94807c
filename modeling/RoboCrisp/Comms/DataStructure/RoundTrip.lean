import RoboCrisp.Comms.DataStructure.Lemmas

namespace RoboCrisp.Comms

open RoboCrisp.Stream RoboCrisp.Util

-- What the constructor of a field is called with.
structure FieldArgs where
  strings : APIStrings
  base : DataDeclaration

-- What the constructor of a structure is called with. The number of fields goes into a byte.
structure StructureArgs where
  strings : APIStrings
  fields : List FieldArgs
  length_le : fields.length ≤ 255

def FieldArgs.construct (args : FieldArgs) : Option DataField :=
  DataField.construct args.strings.symbol args.strings.use args.strings.description args.base

namespace StructureArgs

def construct (args : StructureArgs) : Option DataStructure := do
  let fields ← args.fields.mapM FieldArgs.construct
  DataStructure.construct args.strings.symbol args.strings.use args.strings.description fields

-- The structure is written as just as many bytes as it announces, and a target that holds
-- `held` fields reads them all, whatever follows them, and is equal to the structure then.
def RoundTrips (args : StructureArgs) (held : Nat) : Prop :=
  ∃ ds size bytes, args.construct = some ds ∧ ds.get_encoded_size = some size ∧
    bytes.length = size ∧ Stores ds.encode bytes ∧
    ∀ (target : DataStructure) (old : List DataField), target.fields.Holds old →
      old.length = held →
        ∃ out, Decoder.Consumes target.decode bytes (.SUCCESS, out) ∧ out.eq ds = some true

-- No string of the structure is there without a character. The strings of a field all have
-- characters, or none of them has, and the bounds of the field are inside their slots.
structure Sendable (args : StructureArgs) : Prop where
  strings : args.strings.NoneEmpty
  fields : ∀ field ∈ args.fields, field.strings.AllOrNone ∧ field.base.Sound

variable {args : StructureArgs} {ds : DataStructure}

section Forward

theorem exists_field {args : FieldArgs} (hstrings : args.strings.AllOrNone) (hbase : args.base.Sound) :
    ∃ field s, args.construct = some field ∧ field.Represents s := by
  obtain ⟨element, hcopied, helement⟩ := hstrings.exists_copied
  obtain ⟨declaration, hdeclaration⟩ := hbase.exists_represents
  refine ⟨{ element with declaration := args.base }, ⟨args.strings.contents, args.strings.allSendable,
    declaration⟩, ?_, helement, hdeclaration⟩
  rw [FieldArgs.construct, DataField.construct, hcopied]
  rfl

theorem exists_fields {fields : List FieldArgs}
    (h : ∀ field ∈ fields, field.strings.AllOrNone ∧ field.base.Sound) :
    ∃ out items, fields.mapM FieldArgs.construct = some out ∧
      List.Forall₂ DataField.Represents out items := by
  induction fields with
  | nil => exact ⟨[], [], rfl, .nil⟩
  | cons args fields ih =>
      obtain ⟨hargs, hfields⟩ := List.forall_mem_cons.mp h
      obtain ⟨field, s, hfield, hrep⟩ := exists_field hargs.1 hargs.2
      obtain ⟨out, items, hout, hreps⟩ := ih hfields
      refine ⟨field :: out, s :: items, ?_, .cons hrep hreps⟩
      rw [List.mapM_cons, hfield, hout]
      rfl

-- A structure keeps its own strings as they are, and has the fields in its array.
theorem exists_construct {fields : List DataField}
    (h : args.fields.mapM FieldArgs.construct = some fields) :
    ∃ ds, args.construct = some ds ∧ ds.fields.Holds fields ∧ ds.toAPIElement =
      APIElement.refer args.strings.symbol args.strings.use args.strings.description := by
  obtain ⟨array, hpush, hholds⟩ := (SArray.holds_alloc fields.length).pushAll fields
  refine ⟨{ APIElement.refer args.strings.symbol args.strings.use args.strings.description with
    fields := array }, ?_, hholds, rfl⟩
  simp only [construct, DataStructure.construct, h, hpush, Option.bind_eq_bind, Option.bind_some,
    Option.pure_def]

theorem fields_of_construct (h : args.construct = some ds) :
    ∃ fields, ds.fields.Holds fields ∧
      List.Forall₂ (fun args f => args.construct = some f) args.fields fields ∧
      ds.toAPIElement =
        APIElement.refer args.strings.symbol args.strings.use args.strings.description := by
  obtain ⟨fields, hfields, -⟩ := Option.bind_eq_some_iff.mp h
  obtain ⟨ds', hds', hholds, helement⟩ := exists_construct hfields
  obtain rfl : ds' = ds := Option.some.inj (hds'.symm.trans h)
  exact ⟨fields, hholds, SArray.forall₂_of_mapM hfields, helement⟩

theorem Sendable.read_back (h : args.Sendable) : args.RoundTrips 0 := by
  obtain ⟨fields, items, hfields, hrep⟩ := exists_fields h.fields
  obtain ⟨ds, hds, hholds, helement⟩ := exists_construct hfields
  have hlength : items.length < 256 := by
    rw [← hrep.length_eq, ← (SArray.forall₂_of_mapM hfields).length_eq]
    exact Nat.lt_succ_of_le args.length_le
  let s : StructureContents :=
    ⟨args.strings.contents, args.strings.allSendable, items, hlength⟩
  have hrepresents : ds.Represents s := by
    refine ⟨?_, fields, hholds, hrep⟩
    rw [helement]
    exact h.strings.represents_refer
  refine ⟨ds, s.wire.length, s.wire, hds, hrepresents.get_encoded_size_eq, rfl, hrepresents.stores,
    fun target old hold hnone => ?_⟩
  rw [List.length_eq_zero_iff.mp hnone] at hold
  obtain ⟨out, hdecode, hout⟩ := DataStructure.consumes_decode hold s
  exact ⟨out, hdecode, hout.eq hrepresents⟩

end Forward

section Backward

variable {held : Nat}

-- No field is equal to all the others.
theorem exists_not_eq (field : DataField) : ∃ other : DataField, other.eq field ≠ some true := by
  refine ⟨{ DataField.empty with declaration :=
    { DataDeclaration.empty with type := field.declaration.type + 1 } }, fun h => ?_⟩
  obtain ⟨-, hdeclaration⟩ := DataField.eq_iff.mp h
  have htype := (DataDeclaration.compare_iff.mp hdeclaration).1.1
  exact absurd htype (by simp)

-- What a target with the fields `old` holds after reading the bytes of an equal structure.
theorem fields_of_eq {target out : DataStructure} {old fields : List DataField} {bytes : Bytes}
    (hold : target.fields.Holds old) (hfields : ds.fields.Holds fields)
    (hdecode : Decoder.Consumes target.decode bytes (.SUCCESS, out)) (heq : out.eq ds = some true) :
    (∃ s, out.toAPIElement.Represents s) ∧ ∃ more,
      (∀ f ∈ more, ∃ s, f.toAPIElement.Represents s) ∧
      List.Forall₂ (fun f g => DataField.eq f g = some true) (old ++ more) fields ∧
      out.toAPIElement.get_encoded_size + (if more = [] then 0 else 1) +
        (more.map DataField.get_encoded_size).sum ≤ bytes.length := by
  obtain ⟨helement, more, hholds, hmore, hspent⟩ :=
    (DataStructure.spends_decode hold).of_consumes hdecode
  obtain ⟨-, hsize, heach⟩ := DataStructure.eq_iff.mp heq
  rw [hholds.size_eq] at hsize heach
  exact ⟨helement, more, hmore,
    forall₂_of_eqEach (.inl hholds) (.inl hfields) (hsize.trans hfields.size_eq) heach, hspent⟩

-- A target that holds fields keeps them in front, and they may be different ones.
theorem RoundTrips.held_eq_zero (h : args.RoundTrips held) : held = 0 := by
  obtain ⟨ds, size, bytes, hds, -, -, -, hdecode⟩ := h
  obtain ⟨fields, hfields, -, -⟩ := fields_of_construct hds
  cases held with
  | zero => rfl
  | succ held =>
      let field := fields.headD .empty
      obtain ⟨other, hother⟩ := exists_not_eq field
      obtain ⟨array, -, harray⟩ :=
        (SArray.holds_alloc 0).pushAll (List.replicate (held + 1) other)
      obtain ⟨out, hconsumes, heq⟩ := hdecode { APIElement.empty with fields := array } _ harray
        (by simp)
      obtain ⟨-, more, -, hsame, -⟩ := fields_of_eq harray hfields hconsumes heq
      rw [List.nil_append, List.replicate_succ, List.cons_append] at hsame
      obtain ⟨first, rest, hfirst, -, rfl⟩ := List.forall₂_cons_left_iff.mp hsame
      exact absurd hfirst hother

-- Sums that are compared item by item are only equal when all their items are.
theorem sum_le_sum {α β : Type} {f : α → Nat} {g : β → Nat} {Good : β → Prop} {as : List α}
    {bs : List β} (h : List.Forall₂ (fun a b => g b ≤ f a ∧ (f a ≤ g b → Good b)) as bs) :
    (bs.map g).sum ≤ (as.map f).sum ∧
      ((as.map f).sum ≤ (bs.map g).sum → ∀ b ∈ bs, Good b) := by
  induction h with
  | nil => exact ⟨Nat.le_refl _, fun _ => by simp⟩
  | cons hhead _ ih =>
      obtain ⟨hle, hgood⟩ := hhead
      obtain ⟨hsum, hrest⟩ := ih
      simp only [List.map_cons, List.sum_cons, List.forall_mem_cons]
      exact ⟨by omega, fun hsums => ⟨hgood (by omega), hrest (by omega)⟩⟩

theorem given_of_construct {args : FieldArgs} {field : DataField}
    (h : args.construct = some field) :
    field.toAPIElement.Given ∧ field.declaration = args.base ∧
      (field.toAPIElement.Filled → args.strings.AllOrNone) := by
  obtain ⟨element, hcopied, hfield⟩ := Option.bind_eq_some_iff.mp h
  obtain rfl := Option.some.inj hfield
  exact ⟨APIElement.given_of_copied hcopied, rfl, fun hfilled => hfilled.allOrNone hcopied⟩

theorem forall_mem_of_forall₂ {α β : Type} {R : α → β → Prop} {p : α → Prop} {as : List α}
    {bs : List β} (h : List.Forall₂ R as bs) (hp : ∀ a b, R a b → p a) : ∀ a ∈ as, p a :=
  ((List.forall₂_and_left _ _).mp (h.imp fun a b hab => ⟨hp a b hab, hab⟩)).1

-- Reading takes at least as many bytes as what has been read would be announced with, and that
-- is more than the structure has announced unless it is sendable.
theorem RoundTrips.sendable (h : args.RoundTrips 0) : args.Sendable := by
  obtain ⟨ds, size, bytes, hds, hsize, hlength, -, hdecode⟩ := h
  obtain ⟨fields, hfields, hconstruct, helement⟩ := fields_of_construct hds
  obtain ⟨out, hconsumes, heq⟩ :=
    hdecode { APIElement.empty with fields := .empty } [] SArray.holds_empty rfl
  obtain ⟨⟨s, hout⟩, more, hmore, hsame, hspent⟩ :=
    fields_of_eq SArray.holds_empty hfields hconsumes heq
  rw [List.nil_append] at hsame
  rw [DataStructure.get_encoded_size_eq hfields] at hsize
  have hannounced := Option.some.inj hsize
  have hgiven : ds.toAPIElement.Given := by
    rw [helement]
    exact APIElement.given_refer args.strings
  obtain ⟨hle, hfilled⟩ := hout.encoded_size_le hgiven (DataStructure.eq_iff.mp heq).1
  -- the fields are compared one by one, each with the constructor that has made it
  have hgivens : ∀ g ∈ fields, g.toAPIElement.Given :=
    forall_mem_of_forall₂ hconstruct.flip fun _ _ hargs => (given_of_construct hargs).1
  have hpairs : List.Forall₂ (fun f g : DataField =>
      g.get_encoded_size ≤ f.get_encoded_size ∧ (f.get_encoded_size ≤ g.get_encoded_size →
        g.toAPIElement.Filled ∧ g.declaration.Sound)) more fields := by
    have hread := (List.forall₂_and_left _ _).mpr ⟨hmore, hsame⟩
    refine ((List.forall₂_and_left _ _).mpr ⟨hgivens, hread.flip⟩).flip.imp ?_
    rintro f g ⟨hg, ⟨s, hf⟩, hfg⟩
    obtain ⟨hsizes, hsound, hfills⟩ := DataField.encoded_size_le hf hg hfg
    exact ⟨hsizes, fun hsizes' => ⟨hfills hsizes', hsound⟩⟩
  obtain ⟨hsum, hgood⟩ := sum_le_sum hpairs
  have hnil : (if more = [] then 0 else 1) = if fields = [] then 0 else 1 := by
    simp only [← List.length_eq_zero_iff, hsame.length_eq]
  rw [hnil] at hspent
  have hfields' := (List.forall₂_and_left _ _).mpr ⟨hgood (by omega), hconstruct.flip⟩
  refine ⟨?_, forall_mem_of_forall₂ hfields'.flip ?_⟩
  · have hstrings := hfilled (by omega)
    rw [helement] at hstrings
    exact hstrings.noneEmpty
  · rintro field g ⟨⟨hfill, hsound⟩, hargs⟩
    obtain ⟨-, hbase, hallOrNone⟩ := given_of_construct hargs
    exact ⟨hallOrNone hfill, hbase ▸ hsound⟩

end Backward

-- What is written is read back as an equal structure exactly when no string is there without a
-- character, except for the strings of a field that has none at all, and when the target holds
-- no fields.
theorem structure_roundTrips_iff (args : StructureArgs) (held : Nat) :
    args.RoundTrips held ↔ args.Sendable ∧ held = 0 := by
  constructor
  · intro h
    obtain rfl := h.held_eq_zero
    exact ⟨h.sendable, rfl⟩
  · rintro ⟨h, rfl⟩
    exact h.read_back

-- A structure with a symbol that has no characters, and one without any strings.
def unnamed : StructureArgs where
  strings := ⟨some ⟨[], List.not_mem_nil⟩, none, none, by decide, by decide, by decide⟩
  fields := []
  length_le := by decide

def blank : StructureArgs where
  strings := ⟨none, none, none, by decide, by decide, by decide⟩
  fields := []
  length_le := by decide

theorem unnamed_not_roundTrips : ¬unnamed.RoundTrips 0 ∧ ¬blank.RoundTrips 1 :=
  ⟨fun h => h.sendable.strings.symbol _ rfl rfl, fun h => absurd h.held_eq_zero (by decide)⟩

end StructureArgs

end RoboCrisp.Comms
