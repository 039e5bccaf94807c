import RoboCrisp.Comms.ModuleControl.Displacement

namespace RoboCrisp.Comms

open RoboCrisp.Stream RoboCrisp.Util

namespace ModuleControl

-- The store stays inside the block of the value, and either there is no value to store to, or
-- what is decoded from the bytes of the message has the value.
def Delivers (config : Configuration) (mc : ModuleControl) (key : InputKey) (value : Bytes) : Prop :=
  ∃ after, mc.set key value = some after ∧
    ((after = mc ∧ mc.value_of key = some (mc, none)) ∨
      ∃ bytes, Encoder.Stores after.encode bytes .SUCCESS ∧ ∀ _ : Heap, ∃ out buf,
        decode_copy config (Cursor.ofList bytes) = some (out, buf) ∧
          out.get_value key value.length = some value)

-- Calls of `set` with any value for an input of the module, and of `clear`.
def Op.Own (m : Module) : Op → Prop
  | .set key _ => ∀ input, (forModule m).resolve key = some (some input) → m.HasInput input
  | .clear _ => True
  | _ => False

-- A value for the input is there.
def Has (mc : ModuleControl) (input : ModuleInput) : Prop :=
  ∃ pairs, mc.values.elems = some pairs ∧ ∃ pair ∈ pairs, pair.key = some input.input_id.toNat

-- `clear` has set the bit of the input, which has no value.
def Cleared (mc : ModuleControl) (input : ModuleInput) : Prop :=
  mc.input_ids.getLsbD input.input_id.toNat = true ∧ ¬mc.Has input

-- The message is one that sends the value of the input.
def Sends (mc : ModuleControl) (input : ModuleInput) : Prop :=
  mc.is_clear = false ∧ input.input_id.toNat < 15

-- The input has a bit, and is cleared or has room for the value. What is not sent is read as zeros.
def Passes (mc : ModuleControl) (input : ModuleInput) (value : Bytes) : Prop :=
  input.input_id.toNat < 16 ∧ (mc.Cleared input ∨
    value.length ≤ input.data_type.width.toNat ∧ (mc.Sends input ∨ value = List.replicate value.length 0))

section Sent

variable (mc : ModuleControl) (input : ModuleInput)

-- The values that are sent in front of the one of the input, and those behind it.
def inFront : List ValuePair :=
  (mc.values.elems.getD []).filter fun pair => pair.input_id < input.input_id.toNat

def inBack : List ValuePair :=
  (mc.values.elems.getD []).filter fun pair => input.input_id.toNat < pair.input_id

-- The block that the value is stored to. A new one is full of zeros.
def block : Bytes :=
  (((mc.values.elems.getD []).find? fun pair => pair.input_id = input.input_id.toNat).map
    fun pair => pair.value.value).getD (List.replicate input.data_type.width.toNat 0)

-- What stands behind the header once the value is there.
def sent (value : Bytes) : Bytes :=
  (mc.inFront input).flatMap ValuePair.bytes ++
    (value ++ ((mc.block input).drop value.length ++ (mc.inBack input).flatMap ValuePair.bytes))

-- The cursor of the reader, which every array in front moves on by the count that it takes from its
-- own first bytes, comes to the bytes of the input, takes as many of them as the value has, and
-- meets no count behind them that runs past the end of a size_t.
def InStep (value : Bytes) : Prop :=
  ∃ start lead size more,
    DataValue.spans (types (mc.inFront input)) (mc.sent input value) = some start ∧
    DataValue.span input.data_type ((mc.sent input value).drop start) = some (lead, size) ∧
    DataValue.spans (types (mc.inBack input)) ((mc.sent input value).drop (start + (lead + size))) =
      some more ∧
    start + lead = ((mc.inFront input).flatMap ValuePair.bytes).length ∧ value.length ≤ size

-- Values of `size` bytes are refused, or have a place in the message where the reader looks for them.
def Admits (size : Nat) : Prop :=
  input.input_id.toNat < 16 ∧ (mc.Cleared input ∨ size ≤ input.data_type.width.toNat ∧
    mc.Sends input ∧ mc.InStep input (List.replicate size 0))

end Sent

variable {m : Module} {inputs : List ModuleInput} {mc out : ModuleControl} {ids : List Nat}
  {pairs : List ValuePair} {config : Configuration} {input : ModuleInput} {key : InputKey}

section Bytes

end Bytes

section InStep

variable {value value' : Bytes}

-- The value itself is not what the cursor goes by.
theorem InStep.congr (h : mc.InStep input value) (hlength : value'.length = value.length) :
    mc.InStep input value' := by
  obtain ⟨start, lead, size, more, hfront, hown, hback, hplace, hsize⟩ := h
  have hsent : (mc.sent input value').length = (mc.sent input value).length := by
    simp [sent, hlength]
  have hbefore : (mc.sent input value').take (start + lead) = (mc.sent input value).take (start + lead) := by
    rw [hplace, sent, sent, List.take_left, List.take_left]
  have hbehind : (mc.sent input value').drop (start + (lead + size)) =
      (mc.sent input value).drop (start + (lead + size)) := by
    have hdrop : ∀ value rest : Bytes, value.length ≤ size →
        (value ++ rest).drop size = rest.drop (size - value.length) := by
      intro value rest hle
      rw [List.drop_append, List.drop_of_length_le hle, List.nil_append]
    rw [← Nat.add_assoc, hplace, sent, sent, List.drop_length_add_append, List.drop_length_add_append,
      hdrop value' _ (hlength ▸ hsize), hdrop value _ hsize, hlength]
  refine ⟨start, lead, size, more, DataValue.spans_congr (start + lead) hfront hsent (by omega) hbefore,
    DataValue.span_congr hown ?_ ?_, ?_, hplace, hlength ▸ hsize⟩
  · rw [List.length_drop, List.length_drop, hsent]
  · rw [List.take_drop, List.take_drop, hbefore]
  · rw [hbehind]
    exact hback

end InStep

section Calls

variable (h : Written (Fitting inputs) m mc ids pairs) (hm : m.Indexed inputs) (hinput : input ∈ inputs)
  (hkey : (forModule m).resolve key = some (some input))

include h

theorem Written.pairwise : pairs.Pairwise fun first second => first.input_id < second.input_id := by
  rw [← List.pairwise_map, input_id_of_key h.keys]
  exact h.ascending

theorem Written.key_eq {pair : ValuePair} (hpair : pair ∈ pairs) : pair.key = some pair.input_id := by
  obtain ⟨own, -, hown, -⟩ := h.good pair hpair
  rw [ValuePair.key, ValuePair.input_id, hown]
  rfl

-- The values of the message stay where they are, around the one that is set.
theorem Written.split {pairs' : List ValuePair} {ids' : List Nat} {after : ModuleControl} (new : ValuePair)
    (h' : Written (Fitting inputs) m after ids' pairs') (hnew : new.input = some input)
    (hpairs : ∀ pair, pair ∈ pairs' ↔ pair = new ∨ pair ∈ pairs ∧ pair.key ≠ some input.input_id.toNat) :
    pairs' = mc.inFront input ++ new :: mc.inBack input := by
  have hirrefl : Std.Irrefl fun first second : ValuePair => first.input_id < second.input_id :=
    ⟨fun pair => Nat.lt_irrefl _⟩
  have hantisymm : Std.Antisymm fun first second : ValuePair => first.input_id < second.input_id :=
    ⟨fun first second hlt hgt => absurd hlt (Nat.lt_asymm hgt)⟩
  have hid : new.input_id = input.input_id.toNat := by
    rw [ValuePair.input_id, hnew]
    rfl
  have hfront : ∀ pair, pair ∈ mc.inFront input ↔ pair ∈ pairs ∧ pair.input_id < input.input_id.toNat := by
    intro pair
    rw [inFront, h.holds.elems, Option.getD_some, List.mem_filter, decide_eq_true_iff]
  have hback : ∀ pair, pair ∈ mc.inBack input ↔ pair ∈ pairs ∧ input.input_id.toNat < pair.input_id := by
    intro pair
    rw [inBack, h.holds.elems, Option.getD_some, List.mem_filter, decide_eq_true_iff]
  refine h'.pairwise.eq_of_mem_iff ?_ fun pair => ?_
  · rw [List.pairwise_append, List.pairwise_cons, inFront, inBack, h.holds.elems, Option.getD_some]
    refine ⟨h.pairwise.filter _, ⟨fun pair hpair => ?_, h.pairwise.filter _⟩, ?_⟩
    · rw [hid]
      exact of_decide_eq_true (List.mem_filter.mp hpair).2
    · intro first hfirst second hsecond
      have hlow := of_decide_eq_true (List.mem_filter.mp hfirst).2
      rcases List.mem_cons.mp hsecond with rfl | hsecond
      · rw [hid]
        exact hlow
      · exact hlow.trans (of_decide_eq_true (List.mem_filter.mp hsecond).2)
  · rw [hpairs, List.mem_append, List.mem_cons, hfront, hback]
    constructor
    · rintro (hsame | ⟨hpair, hne⟩)
      · exact .inr (.inl hsame)
      · rw [h.key_eq hpair] at hne
        have hids : pair.input_id ≠ input.input_id.toNat := fun heq => hne (congrArg some heq)
        rcases Nat.lt_or_gt_of_ne hids with hlt | hgt
        · exact .inl ⟨hpair, hlt⟩
        · exact .inr (.inr ⟨hpair, hgt⟩)
    · rintro (⟨hpair, hlt⟩ | hsame | ⟨hpair, hgt⟩)
      · exact .inr ⟨hpair, fun hkey => Nat.ne_of_lt hlt (Option.some.inj ((h.key_eq hpair).symm.trans hkey))⟩
      · exact .inl hsame
      · exact .inr ⟨hpair, fun hkey => Nat.ne_of_gt hgt (Option.some.inj ((h.key_eq hpair).symm.trans hkey))⟩

include hm hinput

include hkey

end Calls

section Clear

end Clear

section Delivery

variable (h : Written (Fitting inputs) m mc ids pairs) (hm : m.Indexed inputs)
  (hget : config.modules.get m.id.toNat = some m) (hinput : input ∈ inputs)
  (hkey : (forModule m).resolve key = some (some input)) {value : Bytes}

include h hm hget hinput hkey

end Delivery

end ModuleControl

end RoboCrisp.Comms
