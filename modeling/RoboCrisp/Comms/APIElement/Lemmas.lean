import RoboCrisp.Comms.DataStructure
import RoboCrisp.Comms.NamedTyped.Lemmas
import RoboCrisp.Stream.Spending

namespace RoboCrisp.Comms

open RoboCrisp.Stream RoboCrisp.Util

-- What an element says, without where it keeps it. A string without characters is one that
-- is not there.
structure APIContents where
  symbol : Bytes
  use : Bytes
  description : Bytes

-- The string says `chars`, with a NUL behind them.
structure APIString.Says (string : APIString) (chars : Bytes) : Prop where
  length_eq : string.length = chars.length
  absent : chars = [] → string.pointer = none
  present : chars ≠ [] → ∃ back, string.pointer = some (chars ++ 0 :: back)

structure APIElement.Represents (obj : APIElement) (s : APIContents) : Prop where
  symbol : obj.symbol.Says s.symbol
  use : obj.use.Says s.use
  description : obj.description.Says s.description

def lengthWire (chars : Bytes) : Bytes := if chars = [] then [] else [UInt8.ofNat chars.length]

-- A string with the byte behind it, in a block that strings share.
def spaced (chars : Bytes) : Bytes := if chars = [] then [] else chars ++ [0]

def maskOf (symbol use description : Bool) : UInt8 :=
  (if symbol then ELEMENT_SYMBOL else 0) ||| (if use then ELEMENT_USE else 0) |||
    (if description then ELEMENT_DESCRIPTION else 0)

-- The flag that the structure adds to the mask of its own strings.
def fieldsFlag (fields : Bool) : UInt8 := if fields then DataStructure.ELEMENT_FIELDS else 0

-- The mask tells the flags apart.
theorem maskOf_and (symbol use description fields : Bool) :
    ((maskOf symbol use description ||| fieldsFlag fields) &&& ELEMENT_SYMBOL ≠ 0 ↔
        symbol = true) ∧
      ((maskOf symbol use description ||| fieldsFlag fields) &&& ELEMENT_USE ≠ 0 ↔ use = true) ∧
      ((maskOf symbol use description ||| fieldsFlag fields) &&& ELEMENT_DESCRIPTION ≠ 0 ↔
        description = true) ∧
      ((maskOf symbol use description ||| fieldsFlag fields) &&& DataStructure.ELEMENT_FIELDS = 0 ↔
        fields = false) := by
  revert symbol use description fields
  decide

namespace APIContents

def mask (s : APIContents) : UInt8 :=
  maskOf (decide (s.symbol ≠ [])) (decide (s.use ≠ [])) (decide (s.description ≠ []))

-- The lengths go in front of all the strings.
def rest (s : APIContents) : Bytes :=
  lengthWire s.symbol ++ (lengthWire s.use ++ (lengthWire s.description ++
    (s.symbol ++ (s.use ++ s.description))))

def wire (s : APIContents) (fields : Bool) : Bytes := (s.mask ||| fieldsFlag fields) :: s.rest

theorem flag_symbol (s : APIContents) (fields : Bool) :
    (s.mask ||| fieldsFlag fields) &&& ELEMENT_SYMBOL ≠ 0 ↔ s.symbol ≠ [] :=
  (maskOf_and _ _ _ fields).1.trans decide_eq_true_iff

theorem flag_use (s : APIContents) (fields : Bool) :
    (s.mask ||| fieldsFlag fields) &&& ELEMENT_USE ≠ 0 ↔ s.use ≠ [] :=
  (maskOf_and _ _ _ fields).2.1.trans decide_eq_true_iff

theorem flag_description (s : APIContents) (fields : Bool) :
    (s.mask ||| fieldsFlag fields) &&& ELEMENT_DESCRIPTION ≠ 0 ↔ s.description ≠ [] :=
  (maskOf_and _ _ _ fields).2.2.1.trans decide_eq_true_iff

theorem flag_fields (s : APIContents) (fields : Bool) :
    (s.mask ||| fieldsFlag fields) &&& DataStructure.ELEMENT_FIELDS = 0 ↔ fields = false :=
  (maskOf_and _ _ _ fields).2.2.2

-- The lengths go into a byte, and strcmp sees all the characters.
structure Sendable (chars : Bytes) : Prop where
  length_lt : chars.length < 256
  no_nul : 0 ∉ chars

structure AllSendable (s : APIContents) : Prop where
  symbol : Sendable s.symbol
  use : Sendable s.use
  description : Sendable s.description

end APIContents

section Strings

variable {string other : APIString} {chars : Bytes}

theorem APIString.Says.isSome_eq (h : string.Says chars) :
    string.pointer.isSome = decide (chars ≠ []) := by
  by_cases hchars : chars = []
  · rw [h.absent hchars, decide_eq_false (not_not_intro hchars)]
    rfl
  · obtain ⟨back, hpointer⟩ := h.present hchars
    rw [hpointer, decide_eq_true hchars]
    rfl

theorem APIString.Says.eq_nil (h : string.Says chars) (hpointer : string.pointer = none) :
    chars = [] := by
  by_contra hchars
  obtain ⟨back, hsome⟩ := h.present hchars
  rw [hpointer] at hsome
  cases hsome

theorem length_spaced (chars : Bytes) : (spaced chars).length =
    if chars.length ≠ 0 then chars.length + 1 else 0 := by
  by_cases hchars : chars = []
  · simp [spaced, hchars]
  · simp [spaced, hchars]

theorem APIString.Says.size_eq (h : string.Says chars) : string.size = (spaced chars).length := by
  rw [APIString.size, h.length_eq, length_spaced]

theorem length_lengthWire (chars : Bytes) :
    (lengthWire chars ++ chars).length = (spaced chars).length := by
  by_cases hchars : chars = []
  · simp [lengthWire, spaced, hchars]
  · simp [lengthWire, spaced, hchars]

theorem APIString.Says.sameString_eq (h : string.Says chars) (h' : other.Says chars)
    (hnul : 0 ∉ chars) : APIElement.sameString string.pointer other.pointer = some true := by
  by_cases hchars : chars = []
  · rw [h.absent hchars, h'.absent hchars]
    rfl
  · obtain ⟨back, hpointer⟩ := h.present hchars
    obtain ⟨back', hpointer'⟩ := h'.present hchars
    rw [hpointer, hpointer']
    exact strcmp_eq_true_iff.mpr ⟨chars, hnul, ⟨back, by simp⟩, ⟨back', by simp⟩⟩

end Strings

namespace APIElement

variable {obj ae : APIElement} {s : APIContents}

theorem Represents.get_encoded_size_eq (h : obj.Represents s) (fields : Bool) :
    obj.get_encoded_size = (s.wire fields).length := by
  have hsymbol := length_lengthWire s.symbol
  have huse := length_lengthWire s.use
  have hdescription := length_lengthWire s.description
  rw [get_encoded_size, h.symbol.size_eq, h.use.size_eq, h.description.size_eq]
  simp only [APIContents.wire, APIContents.rest, List.length_cons, List.length_append] at *
  omega

theorem Represents.eq (h : obj.Represents s) (h' : ae.Represents s) (hs : s.AllSendable) :
    obj.eq ae = some true := by
  have hsymbol := h.symbol.sameString_eq h'.symbol hs.symbol.no_nul
  have huse := h.use.sameString_eq h'.use hs.use.no_nul
  have hdescription := h.description.sameString_eq h'.description hs.description.no_nul
  simp [APIElement.eq, hsymbol, huse, hdescription]

section Encode

theorem Represents.mask_eq (h : obj.Represents s) : obj.mask = s.mask := by
  rw [mask, h.symbol.isSome_eq, h.use.isSome_eq, h.description.isSome_eq]
  rfl

theorem stores_encode_length {mask flag : UInt8} {string : APIString} {chars : Bytes}
    (hmask : mask &&& flag ≠ 0 ↔ chars ≠ []) (h : string.Says chars) :
    Stores (encode_length mask flag string) (lengthWire chars) := by
  unfold encode_length lengthWire
  by_cases hchars : chars = []
  · rw [if_neg (mt hmask.mp (not_not_intro hchars)), if_pos hchars]
    exact Encoder.Stores.pure _
  · rw [if_pos (hmask.mpr hchars), if_neg hchars, h.length_eq]
    exact Encoder.Stores.write _

theorem stores_encode_chars {mask flag : UInt8} {string : APIString} {chars : Bytes}
    (hmask : mask &&& flag ≠ 0 ↔ chars ≠ []) (h : string.Says chars) :
    Stores (encode_chars mask flag string) chars := by
  unfold encode_chars
  by_cases hchars : chars = []
  · rw [if_neg (mt hmask.mp (not_not_intro hchars)), hchars]
    exact Encoder.Stores.pure _
  · obtain ⟨back, hpointer⟩ := h.present hchars
    have hload : load (chars ++ 0 :: back) string.length = some chars := by
      rw [h.length_eq]
      exact load_of_prefix (List.prefix_append _ _)
    rw [if_pos (hmask.mpr hchars)]
    exact Encoder.Stores.lift_bind hpointer
      (Encoder.Stores.lift_bind hload (Encoder.Stores.write _))

theorem Represents.stores (h : obj.Represents s) : Stores obj.encode (s.wire false) := by
  have hmask : obj.mask = s.mask ||| fieldsFlag false := h.mask_eq.trans UInt8.or_zero.symm
  by_cases hnone : obj.symbol.pointer = none ∧ obj.use.pointer = none ∧
      obj.description.pointer = none
  · have hwire : s.wire false = [0] ++ [] := by
      simp [APIContents.wire, APIContents.rest, APIContents.mask, maskOf, fieldsFlag, lengthWire,
        h.symbol.eq_nil hnone.1, h.use.eq_nil hnone.2.1, h.description.eq_nil hnone.2.2]
    rw [encode, if_pos hnone, hwire]
    exact (Encoder.Stores.write [0]).dropped (Encoder.Stores.pure _)
  · have hsymbol := s.flag_symbol false
    have huse := s.flag_use false
    have hdescription := s.flag_description false
    have hwire : s.wire false = [s.mask ||| fieldsFlag false] ++ (lengthWire s.symbol ++
        (lengthWire s.use ++ (lengthWire s.description ++ (s.symbol ++ (s.use ++
          (s.description ++ [])))))) := by
      simp [APIContents.wire, APIContents.rest]
    rw [encode, if_neg hnone, hmask, hwire]
    exact (Encoder.Stores.write _).dropped
      ((stores_encode_length hsymbol h.symbol).dropped
      ((stores_encode_length huse h.use).dropped
      ((stores_encode_length hdescription h.description).dropped
      ((stores_encode_chars hsymbol h.symbol).dropped
      ((stores_encode_chars huse h.use).dropped
      ((stores_encode_chars hdescription h.description).dropped (Encoder.Stores.pure _)))))))

end Encode

section Decode

-- The block with the strings so far in it, and `spare` bytes still to be handed out.
def filled (front : Bytes) (spare : Nat) : StringBlock :=
  ⟨front ++ List.replicate spare 0, front.length⟩

-- Where in the block a string comes to stand.
def placeOf (front chars : Bytes) : Option Nat := if chars = [] then none else some front.length

theorem store_zeros {chars : Bytes} {spare : Nat} (front : Bytes) (h : chars.length ≤ spare) :
    store (front ++ List.replicate spare 0) front.length chars =
      some (front ++ chars ++ List.replicate (spare - chars.length) 0) := by
  rw [store, if_pos (by simp [h]), List.take_left, ← List.drop_drop, List.drop_left,
    List.drop_replicate]

-- The string goes behind the ones that are there, and a zero stays behind it.
theorem store_filled {chars : Bytes} (front : Bytes) (spare : Nat) (hchars : chars ≠ [])
    (h : (spaced chars).length ≤ spare) :
    store (filled front spare).bytes (filled front spare).sbuf chars =
      some (filled (front ++ spaced chars) (spare - (spaced chars).length)).bytes := by
  have hspaced : spaced chars = chars ++ [0] := if_neg hchars
  rw [hspaced, List.length_append, List.length_singleton] at h ⊢
  have hspare : spare - chars.length = spare - (chars.length + 1) + 1 := by omega
  have hstore := store_zeros front (show chars.length ≤ spare by omega)
  rw [hspare, List.replicate_succ] at hstore
  simp only [filled, hstore, List.append_assoc, List.singleton_append]

theorem consumes_decode_chars (chars front : Bytes) (spare : Nat)
    (h : (spaced chars).length ≤ spare) :
    Decoder.Consumes (decode_chars .SUCCESS (filled front spare) chars.length) chars
      (.SUCCESS, filled (front ++ spaced chars) (spare - (spaced chars).length),
        placeOf front chars) := by
  by_cases hchars : chars = []
  · subst hchars
    simp only [decode_chars, spaced, placeOf, List.length_nil, ne_eq, not_true_eq_false, and_false,
      if_true, if_false, List.append_nil, Nat.sub_zero]
    exact Decoder.Consumes.pure _
  · have hne : chars.length ≠ 0 := mt List.length_eq_zero_iff.mp hchars
    have hread : Decoder.Consumes (read chars.length) chars (some chars) :=
      Decoder.Consumes.read rfl
    have hout : (filled (front ++ spaced chars) (spare - (spaced chars).length),
        placeOf front chars) =
          (⟨(filled (front ++ spaced chars) (spare - (spaced chars).length)).bytes,
            (filled front spare).sbuf + (chars.length + 1)⟩, some (filled front spare).sbuf) := by
      simp [filled, placeOf, hchars, spaced]
    unfold decode_chars
    rw [if_pos ⟨rfl, hne⟩, hout]
    exact hread.bind_last
      ((Decoder.Consumes.lift (store_filled front spare hchars h)).bind_nil (Decoder.Consumes.pure _))

theorem says_placeOf {front chars block back : Bytes} (h : block = front ++ (spaced chars ++ back)) :
    APIString.Says ⟨(placeOf front chars).map block.drop, chars.length⟩ chars := by
  refine ⟨rfl, fun hchars => ?_, fun hchars => ⟨back, ?_⟩⟩
  · simp [placeOf, hchars]
  · simp [placeOf, hchars, h, spaced]

end Decode

end APIElement

namespace APIContents

-- All the strings in one block.
def block (s : APIContents) : Bytes := spaced s.symbol ++ (spaced s.use ++ spaced s.description)

-- The element that is read from the wire.
def decoded (s : APIContents) : APIElement where
  symbol := ⟨(APIElement.placeOf [] s.symbol).map s.block.drop, s.symbol.length⟩
  use := ⟨(APIElement.placeOf (spaced s.symbol) s.use).map s.block.drop, s.use.length⟩
  description :=
    ⟨(APIElement.placeOf (spaced s.symbol ++ spaced s.use) s.description).map s.block.drop,
      s.description.length⟩
  owns_api_strings := s.block ≠ []

theorem represents_decoded (s : APIContents) : s.decoded.Represents s where
  symbol := APIElement.says_placeOf (by rw [List.nil_append, block])
  use := APIElement.says_placeOf (by rw [block])
  description := APIElement.says_placeOf (by rw [block, List.append_assoc, List.append_nil])

end APIContents

namespace APIElement

theorem consumes_decode_strings (s : APIContents) :
    Decoder.Consumes (decode_strings s.symbol.length s.use.length s.description.length)
      (s.symbol ++ (s.use ++ s.description)) (.SUCCESS, s.decoded) := by
  let size := (spaced s.symbol).length + (spaced s.use).length + (spaced s.description).length
  have hsymbol := consumes_decode_chars s.symbol [] size (by omega)
  have huse := consumes_decode_chars s.use ([] ++ spaced s.symbol)
    (size - (spaced s.symbol).length) (by omega)
  have hdescription := consumes_decode_chars s.description
    (([] ++ spaced s.symbol) ++ spaced s.use)
    (size - (spaced s.symbol).length - (spaced s.use).length) (by omega)
  have hspare : size - (spaced s.symbol).length - (spaced s.use).length -
      (spaced s.description).length = 0 := by omega
  have hblock : (filled (([] ++ spaced s.symbol) ++ spaced s.use ++ spaced s.description) 0).bytes =
      s.block := by
    simp [filled, APIContents.block]
  unfold decode_strings
  simp only [← length_spaced]
  refine hsymbol.bind (huse.bind (hdescription.bind_last ?_))
  simp only [hspare, hblock]
  have howns : decide (size ≠ 0) = decide (s.block ≠ []) := by
    have hlength : s.block.length = size := by
      simp only [APIContents.block, List.length_append]
      omega
    rw [← hlength]
    simp only [ne_eq, List.length_eq_zero_iff]
  have hout : s.decoded = {
      symbol := ⟨(placeOf [] s.symbol).map s.block.drop, s.symbol.length⟩
      use := ⟨(placeOf ([] ++ spaced s.symbol) s.use).map s.block.drop, s.use.length⟩
      description :=
        ⟨(placeOf ([] ++ spaced s.symbol ++ spaced s.use) s.description).map s.block.drop,
          s.description.length⟩
      owns_api_strings := decide (size ≠ 0) } := by
    rw [howns]
    rfl
  rw [hout]
  exact Decoder.Consumes.pure _

theorem consumes_readByte (byte : UInt8) : Decoder.Consumes readByte [byte] byte := by
  have hread : Decoder.Consumes (read 1) [byte] (some [byte]) := Decoder.Consumes.read rfl
  exact hread.bind_last (Decoder.Consumes.pure _)

theorem consumes_decode_mask (mask : UInt8) : Decoder.Consumes decode_mask [mask] mask := by
  have hread : Decoder.Consumes (read 1) [mask] (some [mask]) := Decoder.Consumes.read rfl
  exact hread.bind_last (Decoder.Consumes.pure _)

theorem consumes_decode_length {mask flag : UInt8} {chars : Bytes}
    (hmask : mask &&& flag ≠ 0 ↔ chars ≠ []) (hlength : chars.length < 256) :
    Decoder.Consumes (decode_length mask flag) (lengthWire chars) chars.length := by
  unfold decode_length lengthWire
  by_cases hchars : chars = []
  · rw [if_neg (mt hmask.mp (not_not_intro hchars)), if_pos hchars, hchars]
    exact Decoder.Consumes.pure _
  · rw [if_pos (hmask.mpr hchars), if_neg hchars]
    refine (consumes_readByte _).bind_last ?_
    rw [toNat_ofNat_length hlength]
    exact Decoder.Consumes.pure _

theorem consumes_decode {s : APIContents} (hs : s.AllSendable) (fields : Bool) :
    Decoder.Consumes decode (s.wire fields) (.SUCCESS, s.decoded) :=
  (consumes_decode_mask _).bind
    ((consumes_decode_length (s.flag_symbol fields) hs.symbol.length_lt).bind
    ((consumes_decode_length (s.flag_use fields) hs.use.length_lt).bind
    ((consumes_decode_length (s.flag_description fields) hs.description.length_lt).bind
    (consumes_decode_strings s))))

section Spending

theorem spends_readByte : Decoder.Spends 1 readByte fun count _ => count = 1 := by
  refine Decoder.Spends.of_forall_consumes fun wire hlength => ?_
  obtain ⟨byte, rfl⟩ := List.length_eq_one_iff.mp hlength
  exact ⟨byte, consumes_readByte byte, rfl⟩

theorem spends_decode_mask : Decoder.Spends 1 decode_mask fun count _ => count = 1 := by
  refine Decoder.Spends.of_forall_consumes fun wire hlength => ?_
  obtain ⟨mask, rfl⟩ := List.length_eq_one_iff.mp hlength
  exact ⟨mask, consumes_decode_mask mask, rfl⟩

-- A length that is not 0 has been read.
theorem spends_decode_length (mask flag : UInt8) :
    Decoder.Spends 1 (decode_length mask flag) fun count length =>
      length < 256 ∧ (length ≠ 0 → count = 1) := by
  unfold decode_length
  by_cases hmask : mask &&& flag ≠ 0
  · rw [if_pos hmask]
    exact spends_readByte.bind_last fun count byte hcount =>
      Decoder.Spends.pure ⟨byte.toNat_lt, fun _ => hcount⟩
  · rw [if_neg hmask]
    exact Decoder.Spends.pure ⟨by decide, fun h => absurd rfl h⟩

theorem spends_decode_strings (symbol_length use_length description_length : Nat) :
    Decoder.Spends (symbol_length + (use_length + description_length))
      (decode_strings symbol_length use_length description_length) fun count out =>
        count = symbol_length + (use_length + description_length) ∧
          ∃ s : APIContents, (s.symbol.length = symbol_length ∧ s.use.length = use_length ∧
            s.description.length = description_length) ∧ out = (.SUCCESS, s.decoded) := by
  refine Decoder.Spends.of_forall_consumes fun wire hlength => ?_
  let s : APIContents := ⟨wire.take symbol_length, (wire.drop symbol_length).take use_length,
    (wire.drop symbol_length).drop use_length⟩
  have hsymbol : s.symbol.length = symbol_length := by
    rw [List.length_take]
    omega
  have huse : s.use.length = use_length := by
    rw [List.length_take, List.length_drop]
    omega
  have hdescription : s.description.length = description_length := by
    rw [List.length_drop, List.length_drop]
    omega
  have hwire : wire = s.symbol ++ (s.use ++ s.description) := by
    rw [List.take_append_drop, List.take_append_drop]
  have hconsumes := consumes_decode_strings s
  rw [hsymbol, huse, hdescription, ← hwire] at hconsumes
  exact ⟨_, hconsumes, rfl, s, ⟨hsymbol, huse, hdescription⟩, rfl⟩

theorem length_spaced_le {chars : Bytes} {count : Nat} (h : chars.length ≠ 0 → count = 1) :
    (spaced chars).length ≤ count + chars.length := by
  rw [length_spaced]
  by_cases hzero : chars.length = 0
  · rw [if_neg (not_not_intro hzero)]
    exact Nat.zero_le _
  · rw [if_pos hzero, h hzero, Nat.add_comm]

-- What has been read has taken no fewer bytes than it would be announced with.
theorem spends_decode : Decoder.Spends 769 decode fun count out =>
    out.1 = .SUCCESS ∧ (∃ s, out.2.Represents s) ∧ out.2.get_encoded_size ≤ count := by
  have hspends : Decoder.Spends (1 + (1 + (1 + (1 + 765)))) decode fun count out =>
      out.1 = .SUCCESS ∧ (∃ s, out.2.Represents s) ∧ out.2.get_encoded_size ≤ count := by
    refine spends_decode_mask.bind fun n mask hn => ?_
    refine (spends_decode_length mask ELEMENT_SYMBOL).bind fun n₁ symbol_length hsymbol => ?_
    refine (spends_decode_length mask ELEMENT_USE).bind fun n₂ use_length huse => ?_
    refine (spends_decode_length mask ELEMENT_DESCRIPTION).bind
      fun n₃ description_length hdescription => ?_
    refine (spends_decode_strings symbol_length use_length description_length).imp (by omega) ?_
    rintro count - out ⟨rfl, s, ⟨rfl, rfl, rfl⟩, rfl⟩
    refine ⟨rfl, ⟨s, s.represents_decoded⟩, ?_⟩
    have hsymbol' := length_spaced_le hsymbol.2
    have huse' := length_spaced_le huse.2
    have hdescription' := length_spaced_le hdescription.2
    rw [get_encoded_size, s.represents_decoded.symbol.size_eq, s.represents_decoded.use.size_eq,
      s.represents_decoded.description.size_eq]
    omega
  exact hspends

end Spending

end APIElement

end RoboCrisp.Comms
