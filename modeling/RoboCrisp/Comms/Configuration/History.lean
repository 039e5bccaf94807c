import RoboCrisp.Comms.Configuration.Encodable

namespace RoboCrisp.Comms

open RoboCrisp.Stream RoboCrisp.Util

-- Looking up an element by its id finds the element with that id.

def Module.HasDenseIds (m : Module) : Prop :=
  (∀ j, j < m.num_inputs.toNat → ∃ input, m.inputs.get j = some input ∧ input.input_id.toNat = j) ∧
    ∀ k, k < m.num_sensors.toNat → ∃ sensor, m.sensors.get k = some sensor ∧ sensor.id.toNat = k

def Configuration.HasDenseIds (c : Configuration) : Prop :=
  ∀ i, i < c.num_modules.toNat →
    ∃ m, c.modules.get i = some m ∧ m.id.toNat = i ∧ m.HasDenseIds

namespace Configuration

-- The bytes that encode leaves in a buffer of the announced size.
def encoding (c : Configuration) : Option Bytes := do
  let size ← c.get_encoded_size
  let (r, buf) ← c.encode (Sink.ofList (List.replicate size 0))
  if r = .SUCCESS then some buf.written else none

-- What can happen to one configuration. A copy or a move goes on with the new object;
-- `moved_from` goes on with the one it has been made of.
inductive Op
  | build (step : BuildStep)
  | reset
  | copy
  | move
  | moved_from
  | assign_self
  | move_self

def Op.Allowed : Op → Prop
  | .build step => step.Allowed fun _ => True
  | _ => True

def Op.run (c : Configuration) : Op → Option Configuration
  | .build step => step.run c
  | .reset => some c.reset
  | .copy => c.copy
  | .move => some c
  | .moved_from => some c.movedFrom
  | .assign_self => some c.assignSelf
  | .move_self => some c.moveSelf

-- What a configuration can take from another one.
inductive SourceOp
  | decode
  | assign
  | move_assign

def SourceOp.run [Heap] (c source : Configuration) : SourceOp → Option Configuration
  | .decode => do
      let bytes ← source.encoding
      let ((_, out), _) ← c.decode (Cursor.ofList bytes)
      return out
  | .assign => c.assign source
  | .move_assign => some (c.moveAssign source)

-- Where a configuration comes from. The source of an operation has a history of its own.
inductive History
  | empty (modules_alloc : UInt8)
  | step (h : History) (op : Op)
  | take (h : History) (op : SourceOp) (source : History)

namespace History

def run [Heap] : History → Option Configuration
  | .empty modules_alloc => some (Configuration.empty modules_alloc)
  | .step h op => do
      let c ← h.run
      op.run c
  | .take h op source => do
      let c ← h.run
      let source ← source.run
      op.run c source

-- What holds of a history and of every one inside it.
def Everywhere (P : History → Prop) : History → Prop
  | .empty modules_alloc => P (.empty modules_alloc)
  | .step h op => P (.step h op) ∧ h.Everywhere P
  | .take h op source => P (.take h op source) ∧ h.Everywhere P ∧ source.Everywhere P

-- The number of add_module calls since the last reset, or those of the source that came instead.
def num_modules : History → Nat
  | .empty _ => 0
  | .step h (.build (.add_module _)) => h.num_modules + 1
  | .step _ .reset => 0
  | .step h _ => h.num_modules
  | .take _ _ source => source.num_modules

-- No module has come from a decode since then.
def Counted : History → Prop
  | .empty _ => True
  | .step _ .reset => True
  | .step h _ => h.Counted
  | .take _ .decode source => source.num_modules = 0
  | .take _ _ source => source.Counted

-- No add_module follows the decode of a module, and an object with modules is neither assigned
-- to itself nor used again after a move.
def KeepsIds : History → Prop
  | .step h (.build (.add_module _)) => h.Counted
  | .step h .moved_from => h.num_modules = 0
  | .step h .assign_self => h.num_modules = 0
  | .step h .move_self => h.num_modules = 0
  | _ => True

-- Every operation is one of the program and leads to a configuration within the limits.
def Possible [Heap] : History → Prop :=
  Everywhere fun h => (∀ h' op, h = .step h' op → op.Allowed) ∧
    ∃ c, h.run = some c ∧ c.WithinLimits

-- Every configuration on the way finds its elements by their ids.
def HasDenseIds [Heap] : History → Prop :=
  Everywhere fun h => ∀ c, h.run = some c → c.HasDenseIds

end History

-- The invariant. It leaves the next id open, which decode does not restore.
def Ordered (Declared : DataDeclaration → Prop) (c : Configuration) : Prop :=
  ∃ modules, c.modules.Contains modules ∧
    InOrder (Module.Dense Declared) (fun m => m.id.toNat) modules ∧
    c.num_modules.toNat = modules.length

variable {Declared : DataDeclaration → Prop} {c c' source : Configuration}

theorem Numbered.ordered {next : UInt8} (h : c.Numbered Declared next) : c.Ordered Declared := by
  obtain ⟨modules, hholds, horder, hcount, -⟩ := h
  exact ⟨modules, .inl hholds, horder, hcount⟩

theorem hasDenseIds_of_numbered {α : Type} {Good : α → Prop} {id : α → Nat} {count next : UInt8}
    {array : SArray α} (h : Comms.Numbered Good id count next array) (j : Nat)
    (hj : j < count.toNat) : ∃ v, array.get j = some v ∧ id v = j := by
  obtain ⟨elements, hholds, horder, hcount, -⟩ := h
  rw [hcount] at hj
  exact ⟨elements[j], by rw [hholds.get, List.getElem?_eq_getElem hj], horder.id_getElem j hj⟩

theorem hasDenseIds_of_ordered (h : c.Ordered Declared) : c.HasDenseIds := by
  obtain ⟨modules, hcontains, horder, hcount⟩ := h
  intro i hi
  rw [hcount] at hi
  have hdense := horder.good _ (List.getElem_mem hi)
  exact ⟨modules[i], by rw [hcontains.get, List.getElem?_eq_getElem hi], horder.id_getElem i hi,
    hasDenseIds_of_numbered hdense.inputs, hasDenseIds_of_numbered hdense.sensors⟩

section Decode

-- A decoded module is as dense as the one that was encoded.
theorem dense_of_matches {m out : Module} {s : ModuleContents} (hm : m.Dense Declared)
    (hmatches : m.Matches s) (hout : out.Matches s) :
    out.Dense (fun _ => True) ∧ out.id.toNat = m.id.toNat := by
  obtain ⟨hrep, hnexti, hnexts⟩ := hmatches
  obtain ⟨hrep', hnexti', hnexts'⟩ := hout
  obtain ⟨chars, hname, hnul⟩ := hm.name
  obtain rfl := hname.unique hrep.name
  obtain ⟨inputs, hinputs, hiorder, -, hinext⟩ := hm.inputs
  obtain ⟨sensors, hsensors, hsorder, -, hsnext⟩ := hm.sensors
  obtain ⟨inputs₀, hinputs₀, hirep⟩ := hrep.inputs
  obtain ⟨sensors₀, hsensors₀, hsrep⟩ := hrep.sensors
  obtain rfl := hinputs.unique hinputs₀
  obtain rfl := hsensors.unique hsensors₀
  obtain ⟨inputs', hinputs', hirep'⟩ := hrep'.inputs
  obtain ⟨sensors', hsensors', hsrep'⟩ := hrep'.sensors
  have hi := forall₂_join (C := fun a b => ∃ i, a.Represents i ∧ b.Represents i)
    (fun a b i ha hb => ⟨i, ha, hb⟩) hirep hirep'
  have hs := forall₂_join (C := fun a b => ∃ i, a.Represents i ∧ b.Represents i)
    (fun a b i ha hb => ⟨i, ha, hb⟩) hsrep hsrep'
  refine ⟨⟨⟨_, hrep'.name, hnul⟩, ⟨inputs', hinputs', hiorder.of_forall₂ hi ?_, ?_, ?_⟩,
    ⟨sensors', hsensors', hsorder.of_forall₂ hs ?_, ?_, ?_⟩⟩, by rw [hrep'.id_eq, hrep.id_eq]⟩
  · rintro a b hplain ⟨i, ha, hb⟩
    obtain ⟨chars, hname, hnul⟩ := hplain.name
    obtain rfl := hname.unique ha.named.name
    exact ⟨⟨trivial, _, hb.named.name, hnul⟩, by rw [hb.input_id_eq, ha.input_id_eq]⟩
  · rw [hrep'.num_inputs_eq, hirep'.length_eq]
  · rw [hnexti', ← hnexti, hinext, hi.length_eq]
  · rintro a b hplain ⟨i, ha, hb⟩
    obtain ⟨chars, hname, hnul⟩ := hplain.name
    obtain rfl := hname.unique ha.named.name
    exact ⟨⟨trivial, _, hb.named.name, hnul⟩, by rw [hb.id_eq, ha.id_eq]⟩
  · rw [hrep'.num_sensors_eq, hsrep'.length_eq]
  · rw [hnexts', ← hnexts, hsnext, hs.length_eq]

theorem Ordered.encoding_matches (h : c.Ordered Declared) {bytes : Bytes}
    (hencoding : c.encoding = some bytes) :
    ∃ (s : ConfigurationContents) (modules : List Module), bytes = s.wire ∧
      c.modules.Contains modules ∧ List.Forall₂ Module.Matches modules s.modules ∧
      InOrder (Module.Dense DataDeclaration.Sound) (fun m => m.id.toNat) modules := by
  obtain ⟨modules, hcontains, horder, hcount⟩ := h
  obtain ⟨size, hsize, hencoding⟩ := Option.bind_eq_some_iff.mp hencoding
  obtain ⟨⟨r, buf⟩, hencode, hencoding⟩ := Option.bind_eq_some_iff.mp hencoding
  obtain ⟨rfl, hencoding⟩ := Option.ite_none_right_eq_some.mp hencoding
  obtain rfl := Option.some.inj hencoding
  have hsound : InOrder (Module.Dense DataDeclaration.Sound) (fun m => m.id.toNat) modules := by
    refine ⟨fun m hm => ?_, horder.ids⟩
    obtain ⟨_, _, hm'⟩ := modules_of_encode hcontains.elems hencode m hm
    exact (horder.good m hm).sound_of_encode hm'
  obtain ⟨items, hitems⟩ := exists_forall₂ fun m hm => (hsound.good m hm).exists_matches
  have hlength := hcount.trans hitems.length_eq
  let s : ConfigurationContents := ⟨items, by rw [← hlength]; exact c.num_modules.toNat_lt⟩
  have hrep : c.Represents s := ⟨hlength, modules, hcontains, hitems.imp fun _ _ hm => hm.1⟩
  obtain rfl := Option.some.inj (hsize.symm.trans hrep.get_encoded_size_eq)
  have hstores := hrep.stores (Sink.ofList (List.replicate s.wire.length 0))
    (by rw [Sink.free_eq]; simp [Sink.ofList])
  obtain ⟨-, rfl⟩ := Prod.mk.inj (Option.some.inj (hstores.symm.trans hencode))
  exact ⟨s, modules, by simp [Sink.append, Sink.ofList], hcontains, hitems, hsound⟩

-- A target that was moved out of either grows new memory or fails at the first module.
theorem decode_matches [Heap] {old : List Module} (hold : c.modules.Contains old)
    (s : ConfigurationContents) {buf buf' : DecodeBuffer} {back : Bytes} {r : DecodeResult}
    {out : Configuration} (hrest : buf.rest = s.wire ++ back)
    (hdecode : c.decode buf = some ((r, out), buf')) :
    out.num_modules.toNat = s.modules.length ∧
      ∃ modules, out.modules.Contains modules ∧ List.Forall₂ Module.Matches modules s.modules := by
  have hgrown := hold.clear.ensure_capacity (UInt8.ofNat s.modules.length).toNat
  obtain hholds | ⟨-, hdata, hsize⟩ := hgrown
  · obtain ⟨out', modules, hconsumes, hcount, -, hout, hmatches⟩ := consumes_decode s hholds
    obtain ⟨hpair, -⟩ := Prod.mk.inj (Option.some.inj ((hconsumes buf back hrest).symm.trans hdecode))
    obtain ⟨-, rfl⟩ := Prod.mk.inj hpair
    exact ⟨hcount, modules, .inl hout, hmatches⟩
  · have hread : Decoder.Consumes (read 1) [UInt8.ofNat s.modules.length]
        (some [UInt8.ofNat s.modules.length]) := Decoder.Consumes.read rfl
    have hcount := toNat_ofNat_length s.num_modules_lt
    obtain ⟨_, middle, hfirst, hdecode⟩ := bind_eq_some_iff.mp hdecode
    rw [hread buf (s.modules.flatMap ModuleContents.wire ++ back) hrest] at hfirst
    obtain ⟨rfl, rfl⟩ := Prod.mk.inj (Option.some.inj hfirst)
    obtain ⟨⟨r', array⟩, last, hloop, hdecode⟩ := bind_eq_some_iff.mp hdecode
    obtain ⟨hpair, -⟩ := Prod.mk.inj (pure_eq_some_iff.mp hdecode)
    obtain ⟨-, rfl⟩ := Prod.mk.inj hpair
    cases hmodules : s.modules with
    | nil =>
        simp only [hmodules, List.length_nil] at hcount hloop hdata hsize ⊢
        obtain ⟨hstate, -⟩ := Prod.mk.inj (pure_eq_some_iff.mp hloop)
        obtain ⟨-, rfl⟩ := Prod.mk.inj hstate
        exact ⟨hcount, [], .inr ⟨rfl, hdata, hsize⟩, .nil⟩
    | cons item items =>
        exfalso
        have hcapacity := SArray.le_capacity_ensure_capacity c.modules.clear
          (UInt8.ofNat s.modules.length).toNat
        have hlength : (UInt8.ofNat s.modules.length).toNat = items.length + 1 := by
          rw [hcount, hmodules, List.length_cons]
        have hloop : Decoder.iterate decode_module (UInt8.ofNat s.modules.length).toNat
            (.SUCCESS, c.modules.clear.ensure_capacity (UInt8.ofNat s.modules.length).toNat)
            (buf.advance 1) = some ((r', array), last) := hloop
        obtain ⟨m, hm, -⟩ := Module.consumes_decode (m := .empty) SArray.holds_empty
          SArray.holds_empty item
        have hnone := SArray.push_eq_none (v := m) hdata (by omega)
        rw [hlength] at hloop
        obtain ⟨state, _, hbody, -⟩ := bind_eq_some_iff.mp hloop
        obtain ⟨⟨_, m'⟩, _, hdecode', hpush⟩ := bind_eq_some_iff.mp hbody
        rw [hm _ (items.flatMap ModuleContents.wire ++ back)] at hdecode'
        · obtain ⟨hpair, -⟩ := Prod.mk.inj (Option.some.inj hdecode')
          obtain ⟨-, rfl⟩ := Prod.mk.inj hpair
          obtain ⟨modules, _, hlift, -⟩ := bind_eq_some_iff.mp hpush
          rw [← hlength, hnone] at hlift
          exact absurd (lift_eq_some_iff.mp hlift).1 (by simp)
        · rw [Cursor.rest_advance, hrest, ConfigurationContents.wire, hmodules]
          simp

-- What any object becomes when it decodes the encoding, whatever bytes follow.
theorem Ordered.decode_encoding [Heap] {target out : Configuration} {old : List Module}
    (h : c.Ordered Declared) {bytes suffix : Bytes} (hencoding : c.encoding = some bytes)
    (hold : target.modules.Contains old) {buf buf' : DecodeBuffer} {r : DecodeResult}
    (hrest : buf.rest = bytes ++ suffix) (hdecode : target.decode buf = some ((r, out), buf')) :
    ∃ modules outs, c.modules.Contains modules ∧ out.modules.Contains outs ∧
      out.num_modules.toNat = outs.length ∧
      InOrder (Module.Dense DataDeclaration.Sound) (fun m => m.id.toNat) modules ∧
      List.Forall₂ (fun m o => ∃ item, m.Matches item ∧ o.Matches item) modules outs := by
  obtain ⟨s, modules, rfl, hcontains, hmatches, horder⟩ := h.encoding_matches hencoding
  obtain ⟨hcount, outs, houts, hmatched⟩ := decode_matches hold s hrest hdecode
  exact ⟨modules, outs, hcontains, houts, by rw [hcount, hmatched.length_eq], horder,
    forall₂_join (fun m o item hm ho => ⟨item, hm, ho⟩) hmatches hmatched⟩

-- The next id is the one that reset has left.
theorem next_module_id_of_decode [Heap] {buf buf' : DecodeBuffer} {r : DecodeResult}
    {out : Configuration} (hdecode : c.decode buf = some ((r, out), buf')) : out.next_module_id = 0 := by
  obtain ⟨bytes, middle, -, hdecode⟩ := bind_eq_some_iff.mp hdecode
  split at hdecode
  · obtain ⟨state, last, -, hdecode⟩ := bind_eq_some_iff.mp hdecode
    obtain ⟨hpair, -⟩ := Prod.mk.inj (pure_eq_some_iff.mp hdecode)
    obtain ⟨-, rfl⟩ := Prod.mk.inj hpair
    rfl
  · obtain ⟨hpair, -⟩ := Prod.mk.inj (pure_eq_some_iff.mp hdecode)
    obtain ⟨-, rfl⟩ := Prod.mk.inj hpair
    rfl

theorem Ordered.decode [Heap] (h : c.Ordered fun _ => True) (hsource : source.Ordered fun _ => True)
    (hrun : SourceOp.decode.run c source = some c') : (c'.Ordered fun _ => True) ∧
      c'.num_modules.toNat = source.num_modules.toNat ∧ c'.next_module_id = 0 := by
  obtain ⟨old, hold, -, -⟩ := h
  obtain ⟨bytes, hencoding, hrun⟩ := Option.bind_eq_some_iff.mp hrun
  obtain ⟨⟨⟨r, out⟩, buf⟩, hdecode, hrun⟩ := Option.bind_eq_some_iff.mp hrun
  obtain rfl := Option.some.inj hrun
  obtain ⟨modules, outs, hmodules, houts, hcount, horder, hjoin⟩ :=
    hsource.decode_encoding hencoding hold
      (show (Cursor.ofList bytes).rest = bytes ++ [] by simp) hdecode
  refine ⟨⟨outs, houts, horder.of_forall₂ hjoin ?_, hcount⟩, ?_, next_module_id_of_decode hdecode⟩
  · rintro m o hdense ⟨item, hm, ho⟩
    exact dense_of_matches hdense hm ho
  · obtain ⟨held, hheld, -, hlength⟩ := hsource
    rw [hlength, hcount, ← hjoin.length_eq, ← hmodules.size_eq, ← hheld.size_eq]

end Decode

theorem inOrder_copies {modules copies : List Module}
    (horder : InOrder (Module.Dense Declared) (fun m => m.id.toNat) modules)
    (hcopies : List.Forall₂ (fun m copy => (m.copy >>= Module.copy) = some copy) modules copies) :
    InOrder (Module.Dense Declared) (fun m => m.id.toNat) copies := by
  refine horder.of_forall₂ hcopies fun m copy hm hcopy => ?_
  obtain ⟨middle, hfirst, hsecond⟩ := Option.bind_eq_some_iff.mp hcopy
  obtain ⟨hmiddle, hid⟩ := hm.copy hfirst
  obtain ⟨hdense, hid'⟩ := hmiddle.copy hsecond
  exact ⟨hdense, by rw [hid', hid]⟩

theorem Ordered.copy (h : c.Ordered Declared) (hcopy : c.copy = some c') : c'.Ordered Declared := by
  obtain ⟨modules, hcontains, horder, hcount⟩ := h
  obtain ⟨array, harray, hcopy⟩ := Option.bind_eq_some_iff.mp hcopy
  obtain rfl := Option.some.inj hcopy
  obtain ⟨copies, hcontains', hcopies⟩ := hcontains.copy harray
  exact ⟨copies, hcontains', inOrder_copies horder hcopies, hcount.trans hcopies.length_eq⟩

theorem Ordered.assign (h : c.Ordered Declared) (hsource : source.Ordered Declared)
    (hassign : c.assign source = some c') : c'.Ordered Declared := by
  obtain ⟨old, hold, -, -⟩ := h
  obtain ⟨modules, hcontains, horder, hcount⟩ := hsource
  obtain ⟨array, harray, hassign⟩ := Option.bind_eq_some_iff.mp hassign
  obtain rfl := Option.some.inj hassign
  obtain ⟨copies, hcontains', hcopies⟩ := hcontains.assign hold harray
  exact ⟨copies, hcontains', inOrder_copies horder hcopies, hcount.trans hcopies.length_eq⟩

-- With a module to call there is memory that holds it.
theorem Ordered.numbered_of_update {i : Nat} {f : Module → Option Module} (h : c.Ordered Declared)
    (hupdate : c.update i f = some c') : c.Numbered Declared c.num_modules := by
  obtain ⟨m, _, _, hget, -⟩ := size_update hupdate
  obtain ⟨modules, hholds | ⟨-, hdata, -⟩, horder, hcount⟩ := h
  · exact ⟨modules, hholds, horder, hcount, hcount⟩
  · simp [SArray.get, hdata] at hget

theorem Ordered.build {step : BuildStep} (h : c.Ordered Declared) (hstep : step.Allowed Declared)
    (hcounter : ∀ args, step = .add_module args → c.next_module_id = c.num_modules)
    (hrun : step.run c = some c') (hlimit : c'.WithinLimits) : c'.Ordered Declared := by
  have ⟨modules, hcontains, horder, hcount⟩ := h
  cases step with
  | add_module args =>
      obtain ⟨out, hout, hrun⟩ := Option.bind_eq_some_iff.mp hrun
      obtain ⟨array, hpush, hrun⟩ := Option.bind_eq_some_iff.mp hrun
      obtain rfl := Option.some.inj hrun
      have hsize : array.size ≤ 255 := hlimit.1
      rw [SArray.size_push hpush, hcontains.size_eq] at hsize
      have hnext : c.next_module_id.toNat = modules.length := by rw [hcounter args rfl, hcount]
      have hdense := (ModuleArgs.construct_dense hstep hout).with_id c.next_module_id
      refine ⟨_, .inl (hcontains.push hpush), horder.snoc hdense hnext, ?_⟩
      rw [toNat_succ (by omega), hcount, List.length_append, List.length_singleton]
  | add_input i name id data_type owns_name =>
      exact ((h.numbered_of_update hrun).build_element hstep hrun hlimit (by simp)).ordered
  | add_sensor i name type data_type mode =>
      exact ((h.numbered_of_update hrun).build_element hstep hrun hlimit (by simp)).ordered

-- The last module has the id that the counter had.
theorem Ordered.counter_of_add {args : ModuleArgs} (h : c.Ordered Declared)
    (hrun : c.add_module args = some c') (hlimit : c'.WithinLimits) (hdense : c'.HasDenseIds) :
    c.next_module_id = c.num_modules := by
  obtain ⟨modules, hcontains, -, hcount⟩ := h
  obtain ⟨out, -, hrun⟩ := Option.bind_eq_some_iff.mp hrun
  obtain ⟨array, hpush, hrun⟩ := Option.bind_eq_some_iff.mp hrun
  obtain rfl := Option.some.inj hrun
  have hsize : array.size ≤ 255 := hlimit.1
  rw [SArray.size_push hpush, hcontains.size_eq] at hsize
  have hlast : c.num_modules.toNat < (c.num_modules + 1).toNat := by
    rw [toNat_succ (by omega)]
    exact Nat.lt_succ_self _
  obtain ⟨m, hget, hid, -⟩ := hdense _ hlast
  rw [(hcontains.push hpush).get, hcount, List.getElem?_concat_length] at hget
  obtain rfl := Option.some.inj hget
  exact UInt8.toNat_inj.mp hid

-- An object whose elements are gone cannot have kept a count.
theorem HasDenseIds.num_modules_eq (h : c.HasDenseIds) (hget : c.modules.get 0 = none) :
    c.num_modules.toNat = 0 := by
  by_contra hpos
  obtain ⟨m, hm, -⟩ := h 0 (Nat.pos_of_ne_zero hpos)
  rw [hget] at hm
  cases hm

namespace History

-- What is known of the configuration that a history leads to, its counter included.
structure Keeps (h : History) (c : Configuration) : Prop where
  ordered : c.Ordered fun _ => True
  count : c.num_modules.toNat = h.num_modules
  counter : c.next_module_id.toNat = h.num_modules ↔ h.Counted

variable {h source : History} {c c' o : Configuration}

theorem keeps_empty (modules_alloc : UInt8) :
    (History.empty modules_alloc).Keeps (Configuration.empty modules_alloc) where
  ordered := ⟨[], .inl (SArray.holds_alloc _), .nil, rfl⟩
  count := rfl
  counter := iff_of_true rfl trivial

theorem Keeps.counted_iff (hkeeps : h.Keeps c) : c.next_module_id = c.num_modules ↔ h.Counted := by
  rw [← hkeeps.counter, ← hkeeps.count, UInt8.toNat_inj]

-- An operation that loses the elements and keeps the count.
theorem Keeps.lost {modules : SArray Module} (hkeeps : h.Keeps c) (hlost : modules.Contains [])
    (hempty : h.num_modules = 0) : h.Keeps { c with modules } where
  ordered := ⟨[], hlost, .nil, hkeeps.count.trans hempty⟩
  count := hkeeps.count
  counter := hkeeps.counter

theorem Keeps.build {step : BuildStep} (hkeeps : h.Keeps c) (hstep : step.Allowed fun _ => True)
    (hrun : step.run c = some c') (hlimit : c'.WithinLimits)
    (hids : (h.step (.build step)).KeepsIds) : (h.step (.build step)).Keeps c' := by
  have hcounter : ∀ args, step = .add_module args → c.next_module_id = c.num_modules := by
    rintro args rfl
    exact hkeeps.counted_iff.mpr hids
  have hordered := hkeeps.ordered.build hstep hcounter hrun hlimit
  cases step with
  | add_module args =>
      have hnext := hcounter args rfl
      obtain ⟨out, -, hrun⟩ := Option.bind_eq_some_iff.mp hrun
      obtain ⟨array, hpush, hrun⟩ := Option.bind_eq_some_iff.mp hrun
      obtain rfl := Option.some.inj hrun
      obtain ⟨modules, hcontains, -, hcount⟩ := hkeeps.ordered
      have hsize : array.size ≤ 255 := hlimit.1
      rw [SArray.size_push hpush, hcontains.size_eq] at hsize
      have hsucc : (c.num_modules + 1).toNat = h.num_modules + 1 := by
        rw [toNat_succ (by omega), hkeeps.count]
      exact ⟨hordered, hsucc, iff_of_true (by rw [hnext]; exact hsucc) hids⟩
  | add_input i name id data_type owns_name =>
      obtain ⟨_, _, _, -, -, -, rfl⟩ := size_update hrun
      exact ⟨hordered, hkeeps.count, hkeeps.counter⟩
  | add_sensor i name type data_type mode =>
      obtain ⟨_, _, _, -, -, -, rfl⟩ := size_update hrun
      exact ⟨hordered, hkeeps.count, hkeeps.counter⟩

-- Every operation on one object keeps the invariant where it meets the condition.
theorem Keeps.step {op : Op} (hkeeps : h.Keeps c) (hop : op.Allowed) (hrun : op.run c = some c')
    (hlimit : c'.WithinLimits) (hids : (h.step op).KeepsIds) : (h.step op).Keeps c' := by
  have ⟨modules, hcontains, horder, hcount⟩ := hkeeps.ordered
  cases op with
  | build step => exact hkeeps.build hop hrun hlimit hids
  | reset =>
      obtain rfl := Option.some.inj hrun
      exact ⟨⟨[], hcontains.clear, .nil, rfl⟩, rfl, iff_of_true rfl trivial⟩
  | copy =>
      have hordered := hkeeps.ordered.copy hrun
      obtain ⟨array, -, hrun⟩ := Option.bind_eq_some_iff.mp hrun
      obtain rfl := Option.some.inj hrun
      exact ⟨hordered, hkeeps.count, hkeeps.counter⟩
  | move =>
      obtain rfl := Option.some.inj hrun
      exact ⟨hkeeps.ordered, hkeeps.count, hkeeps.counter⟩
  | moved_from =>
      obtain rfl := Option.some.inj hrun
      have hsize : c.modules.size = 0 := by
        rw [hcontains.size_eq, ← hcount, hkeeps.count]
        exact hids
      have hlost := hkeeps.lost (.inr ⟨rfl, rfl, hsize⟩ : c.modules.movedFrom.Contains []) hids
      exact ⟨hlost.ordered, hlost.count, hlost.counter⟩
  | assign_self =>
      obtain rfl := Option.some.inj hrun
      have hlost := hkeeps.lost (hcontains.clear.ensure_capacity c.modules.capacity) hids
      exact ⟨hlost.ordered, hlost.count, hlost.counter⟩
  | move_self =>
      obtain rfl := Option.some.inj hrun
      have hlost := hkeeps.lost
        (.inr ⟨rfl, rfl, hcontains.clear.size_eq⟩ : c.modules.moveSelf.Contains []) hids
      exact ⟨hlost.ordered, hlost.count, hlost.counter⟩

-- Where it doesn't, an id is wrong at once.
theorem Keeps.keepsIds {op : Op} (hkeeps : h.Keeps c) (hrun : op.run c = some c')
    (hlimit : c'.WithinLimits) (hdense : c'.HasDenseIds) : (h.step op).KeepsIds := by
  have ⟨modules, hcontains, _, _⟩ := hkeeps.ordered
  cases op with
  | build step =>
      cases step with
      | add_module args =>
          exact hkeeps.counted_iff.mp (hkeeps.ordered.counter_of_add hrun hlimit hdense)
      | add_input i name id data_type owns_name => trivial
      | add_sensor i name type data_type mode => trivial
  | reset => trivial
  | copy => trivial
  | move => trivial
  | moved_from =>
      obtain rfl := Option.some.inj hrun
      exact hkeeps.count.symm.trans (hdense.num_modules_eq rfl)
  | assign_self =>
      obtain rfl := Option.some.inj hrun
      refine hkeeps.count.symm.trans (hdense.num_modules_eq ?_)
      exact (hcontains.clear.ensure_capacity c.modules.capacity).get 0
  | move_self =>
      obtain rfl := Option.some.inj hrun
      exact hkeeps.count.symm.trans (hdense.num_modules_eq rfl)

theorem Keeps.take [Heap] {op : SourceOp} (hkeeps : h.Keeps c) (hsource : source.Keeps o)
    (hrun : op.run c o = some c') : (h.take op source).Keeps c' := by
  cases op with
  | decode =>
      obtain ⟨hordered, hcount, hnext⟩ := hkeeps.ordered.decode hsource.ordered hrun
      refine ⟨hordered, hcount.trans hsource.count, ?_⟩
      rw [hnext]
      exact eq_comm
  | assign =>
      have hordered := hkeeps.ordered.assign hsource.ordered hrun
      obtain ⟨array, -, hrun⟩ := Option.bind_eq_some_iff.mp hrun
      obtain rfl := Option.some.inj hrun
      exact ⟨hordered, hsource.count, hsource.counter⟩
  | move_assign =>
      obtain rfl := Option.some.inj hrun
      exact ⟨hsource.ordered, hsource.count, hsource.counter⟩

variable [Heap]

theorem exists_keeps (hpossible : h.Possible) (hids : h.Everywhere KeepsIds) :
    ∃ c, h.run = some c ∧ h.Keeps c := by
  induction h with
  | empty modules_alloc => exact ⟨_, rfl, keeps_empty modules_alloc⟩
  | step h op ih =>
      obtain ⟨⟨hallowed, c', hrun, hlimit⟩, hpossible⟩ := hpossible
      obtain ⟨c, hc, hkeeps⟩ := ih hpossible hids.2
      rw [run, hc] at hrun
      exact ⟨c', by rw [run, hc]; exact hrun, hkeeps.step (hallowed h op rfl) hrun hlimit hids.1⟩
  | take h op source ih ihsource =>
      obtain ⟨⟨-, c', hrun, -⟩, hpossible, hpossible'⟩ := hpossible
      obtain ⟨c, hc, hkeeps⟩ := ih hpossible hids.2.1
      obtain ⟨o, ho, hsource⟩ := ihsource hpossible' hids.2.2
      rw [run, hc, ho] at hrun
      exact ⟨c', by rw [run, hc, ho]; exact hrun, hkeeps.take hsource hrun⟩

-- Every configuration of a history looks its elements up rightly just in the histories that
-- never number a module after one was decoded, nor lose one that stays counted.
theorem Possible.hasDenseIds_iff (hpossible : h.Possible) :
    h.HasDenseIds ↔ h.Everywhere KeepsIds := by
  constructor
  · intro hdense
    induction h with
    | empty modules_alloc => trivial
    | step h op ih =>
        have hids := ih hpossible.2 hdense.2
        obtain ⟨c, hc, hkeeps⟩ := exists_keeps hpossible.2 hids
        obtain ⟨-, c', hrun, hlimit⟩ := hpossible.1
        have hstep := hrun
        rw [run, hc] at hstep
        exact ⟨hkeeps.keepsIds hstep hlimit (hdense.1 c' hrun), hids⟩
    | take h op source ih ihsource =>
        exact ⟨trivial, ih hpossible.2.1 hdense.2.1, ihsource hpossible.2.2 hdense.2.2⟩
  · intro hids
    induction h with
    | empty modules_alloc =>
        intro c hc
        obtain rfl := Option.some.inj hc
        exact hasDenseIds_of_ordered (keeps_empty modules_alloc).ordered
    | step h op ih => 
        refine ⟨fun c hc => ?_, ih hpossible.2 hids.2⟩
        obtain ⟨c', hc', hkeeps⟩ := exists_keeps hpossible hids
        obtain rfl := Option.some.inj (hc.symm.trans hc')
        exact hasDenseIds_of_ordered hkeeps.ordered
    | take h op source ih ihsource =>
        refine ⟨fun c hc => ?_, ih hpossible.2.1 hids.2.1, ihsource hpossible.2.2 hids.2.2⟩
        obtain ⟨c', hc', hkeeps⟩ := exists_keeps hpossible hids
        obtain rfl := Option.some.inj (hc.symm.trans hc')
        exact hasDenseIds_of_ordered hkeeps.ordered

end History

namespace History

section Possible

variable [Heap] {h source : History}

theorem exists_within (hrun : (h.run.any fun c => decide c.WithinLimits) = true) :
    ∃ c, h.run = some c ∧ c.WithinLimits := by
  obtain ⟨c, hc, hlimit⟩ := (Option.any_eq_true _ _).mp hrun
  exact ⟨c, hc, of_decide_eq_true hlimit⟩

theorem Possible.step {op : Op} (hpossible : h.Possible) (hop : op.Allowed)
    (hrun : ((h.step op).run.any fun c => decide c.WithinLimits) = true) : (h.step op).Possible := by
  refine ⟨⟨fun h' op' heq => ?_, exists_within hrun⟩, hpossible⟩
  obtain ⟨-, rfl⟩ := History.step.inj heq
  exact hop

theorem Possible.take {op : SourceOp} (hpossible : h.Possible) (hsource : source.Possible)
    (hrun : ((h.take op source).run.any fun c => decide c.WithinLimits) = true) :
    (h.take op source).Possible := by
  refine ⟨⟨fun h' op' heq => ?_, exists_within hrun⟩, hpossible, hsource⟩
  cases heq

theorem possible_empty (modules_alloc : UInt8) : (History.empty modules_alloc).Possible := by
  have hholds : (Configuration.empty modules_alloc).modules.Holds [] := SArray.holds_alloc _
  refine ⟨fun h' op' heq => ?_, Configuration.empty modules_alloc, rfl, Nat.zero_le _, ?_⟩
  · cases heq
  · rw [hholds.elems]
    exact fun m hm => absurd hm List.not_mem_nil

end Possible

-- One module, and its encoding decoded into another object, which is reset and extended, or
-- extended at once.
def single : History := (History.empty 0).step (.build (.add_module .none))

def decoded : History := (History.empty 0).take .decode single

def restarted : History := (decoded.step .reset).step (.build (.add_module .none))

def extended : History := decoded.step (.build (.add_module .none))

theorem possible_decoded : @decoded.Possible Heap.zeros := by
  let _ := Heap.zeros
  have hsingle : single.Possible := (possible_empty 0).step trivial (by decide)
  exact (possible_empty 0).take hsingle (by decide)

theorem restarted_hasDenseIds : @restarted.HasDenseIds Heap.zeros := by
  let _ := Heap.zeros
  have hreset : (decoded.step .reset).Possible := possible_decoded.step trivial (by decide)
  have hpossible : restarted.Possible := hreset.step trivial (by decide)
  refine hpossible.hasDenseIds_iff.mpr ⟨trivial, trivial, trivial, trivial, trivial, trivial⟩

-- The second module gets the id of the first one.
theorem not_hasDenseIds_extended :
    ¬∀ h : History, @h.Possible Heap.zeros → @h.HasDenseIds Heap.zeros := by
  let _ := Heap.zeros
  intro hall
  have hpossible : extended.Possible := possible_decoded.step trivial (by decide)
  have hids : (extended.run >>= fun c => (c.modules.get 1).map Module.id) = some 0 := by decide
  have hcount : extended.run.map Configuration.num_modules = some 2 := by decide
  obtain ⟨c, hc, hids⟩ := Option.bind_eq_some_iff.mp hids
  rw [hc] at hcount
  have htwo : c.num_modules = 2 := Option.some.inj hcount
  obtain ⟨m, hget, hid, -⟩ := (hall extended hpossible).1 c hc 1 (by rw [htwo]; decide)
  rw [hget] at hids
  rw [Option.some.inj hids] at hid
  exact absurd hid (by decide)

end History

end Configuration

end RoboCrisp.Comms
