import Mathlib.Data.List.Basic

namespace RoboCrisp.Stream

-- A block of cells that is read from front to back: the cells in front of the
-- offset and the ones still to be read. No offset past the end can be built.
structure Cursor (β : Type) where
  seen : List β
  rest : List β

namespace Cursor

variable {β : Type}

def ofList (data : List β) : Cursor β := ⟨[], data⟩

def data (cursor : Cursor β) : List β := cursor.seen ++ cursor.rest

def length (cursor : Cursor β) : Nat := cursor.data.length

def offset (cursor : Cursor β) : Nat := cursor.seen.length

def advance (cursor : Cursor β) (count : Nat) : Cursor β :=
  ⟨cursor.seen ++ cursor.rest.take count, cursor.rest.drop count⟩

-- Either all `count` cells are there and are read, or none is and the cursor stays.
def read (cursor : Cursor β) (count : Nat) : Option (List β) × Cursor β :=
  if cursor.length - cursor.offset < count then (none, cursor)
  else (some (cursor.rest.take count), cursor.advance count)

@[simp] theorem rest_ofList (data : List β) : (ofList data).rest = data := rfl

@[simp] theorem rest_advance (cursor : Cursor β) (count : Nat) :
    (cursor.advance count).rest = cursor.rest.drop count := rfl

theorem length_sub_offset (cursor : Cursor β) :
    cursor.length - cursor.offset = cursor.rest.length := by
  simp [length, offset, data]

@[simp] theorem data_advance (cursor : Cursor β) (count : Nat) :
    (cursor.advance count).data = cursor.data := by
  simp [data, advance]

theorem advance_advance (cursor : Cursor β) (m n : Nat) :
    (cursor.advance m).advance n = cursor.advance (m + n) := by
  simp only [advance, List.drop_drop, List.append_assoc, ← List.take_add]

theorem advance_zero (cursor : Cursor β) : cursor.advance 0 = cursor := by
  simp [advance]

-- The offset moves by exactly the cells stepped over when they are there.
theorem offset_advance (cursor : Cursor β) (count : Nat) (h : count ≤ cursor.rest.length) :
    (cursor.advance count).offset = cursor.offset + count := by
  simp [advance, offset, h]

theorem read_of_rest {cursor : Cursor β} {front back : List β} (h : cursor.rest = front ++ back) :
    cursor.read front.length = (some front, cursor.advance front.length) := by
  have hlength : front.length ≤ cursor.length - cursor.offset := by
    rw [length_sub_offset, h, List.length_append]
    omega
  rw [read, if_neg (by omega), h, List.take_left]

end Cursor

-- A reader that threads a cursor through and may fail for good (`none`).
abbrev Decoder (β α : Type) := StateT (Cursor β) Option α

namespace Decoder

variable {β α γ σ ι : Type}

def read (count : Nat) : Decoder β (Option (List β)) := fun cursor => some (cursor.read count)

-- A look at the next cell. There is no result when none is left.
def peek : Decoder β β := fun cursor => cursor.rest.head?.map fun cell => (cell, cursor)

-- On any cursor that stands before `wire`, the decoder reads exactly `wire` and yields `value`.
def Consumes (decoder : Decoder β α) (wire : List β) (value : α) : Prop :=
  ∀ cursor back, cursor.rest = wire ++ back → decoder cursor = some (value, cursor.advance wire.length)

theorem Consumes.unique {decoder : Decoder β α} {wire : List β} {value value' : α}
    (h : Consumes decoder wire value) (h' : Consumes decoder wire value') : value = value' := by
  have hrest : (Cursor.ofList wire).rest = wire ++ [] := (List.append_nil wire).symm
  have hsame := (h _ [] hrest).symm.trans (h' _ [] hrest)
  exact (Prod.mk.inj (Option.some.inj hsame)).1

theorem Consumes.pure (value : α) : Consumes (β := β) (Pure.pure value) [] value := by
  intro cursor back _
  change some (value, cursor) = _
  rw [List.length_nil, Cursor.advance_zero]

theorem Consumes.bind {decoder : Decoder β α} {next : α → Decoder β γ} {front back : List β}
    {value : α} {result : γ} (hfirst : Consumes decoder front value)
    (hnext : Consumes (next value) back result) :
    Consumes (decoder >>= next) (front ++ back) result := by
  intro cursor tail h
  have hstep : (decoder >>= next) cursor = next value (cursor.advance front.length) := by
    change (decoder cursor >>= fun p => next p.1 p.2) = _
    rw [hfirst cursor (back ++ tail) (by rw [h, List.append_assoc])]
    rfl
  rw [hstep, hnext _ tail (by simp [h]), Cursor.advance_advance,
    List.length_append]

-- A first step that reads nothing.
theorem Consumes.bind_nil {decoder : Decoder β α} {next : α → Decoder β γ} {wire : List β}
    {value : α} {result : γ} (hfirst : Consumes decoder [] value)
    (hnext : Consumes (next value) wire result) : Consumes (decoder >>= next) wire result :=
  hfirst.bind hnext

-- Nothing is read any more.
theorem Consumes.bind_last {decoder : Decoder β α} {next : α → Decoder β γ} {wire : List β}
    {value : α} {result : γ} (hfirst : Consumes decoder wire value)
    (hnext : Consumes (next value) [] result) : Consumes (decoder >>= next) wire result := by
  rw [← List.append_nil wire]
  exact hfirst.bind hnext

theorem Consumes.read {wire : List β} {count : Nat} (h : wire.length = count) :
    Consumes (read count) wire (some wire) := by
  subst h
  intro cursor back hrest
  simp only [Decoder.read, Cursor.read_of_rest hrest]

theorem Consumes.lift {value : α} {result : Option α} (h : result = some value) :
    Consumes (β := β) (StateT.lift result) [] value := by
  subst h
  intro cursor _ _
  rw [List.length_nil, Cursor.advance_zero]
  rfl

-- A look at the cursor that only depends on its having enough cells left.
theorem Consumes.get {next : Cursor β → Decoder β α} {wire : List β} {value : α}
    (h : ∀ cursor : Cursor β, wire.length ≤ cursor.length - cursor.offset →
      Consumes (next cursor) wire value) :
    Consumes (MonadState.get >>= next) wire value := by
  intro cursor back hrest
  have hlength : wire.length ≤ cursor.length - cursor.offset := by
    rw [Cursor.length_sub_offset, hrest, List.length_append]
    omega
  exact h cursor hlength cursor back hrest

theorem Consumes.peek {next : β → Decoder β α} {cell : β} {wire : List β} {value : α}
    (h : Consumes (next cell) (cell :: wire) value) :
    Consumes (Decoder.peek >>= next) (cell :: wire) value := by
  intro cursor back hrest
  have hpeek : (Decoder.peek >>= next) cursor = next cell cursor := by
    change (cursor.rest.head?.map fun cell => (cell, cursor)).bind (fun p => next p.1 p.2) = _
    rw [hrest]
    rfl
  rw [hpeek]
  exact h cursor back hrest

def iterate (body : σ → Decoder β σ) : Nat → σ → Decoder β σ
  | 0, state => Pure.pure state
  | count + 1, state => body state >>= iterate body count

-- The loop rule: `inv done` holds of the state once the items `done` have been read.
theorem Consumes.iterate {body : σ → Decoder β σ} {wire : ι → List β} {inv : List ι → σ → Prop}
    (items : List ι)
    (hstep : ∀ done item state, item ∈ items → inv done state →
      ∃ state', Consumes (body state) (wire item) state' ∧ inv (done ++ [item]) state')
    (done : List ι) (state : σ) (h : inv done state) :
    ∃ state', Consumes (iterate body items.length state) (items.flatMap wire) state' ∧
      inv (done ++ items) state' := by
  induction items generalizing done state with
  | nil => exact ⟨state, Consumes.pure state, by simpa using h⟩
  | cons item items ih =>
      obtain ⟨middle, hbody, hmiddle⟩ := hstep done item state (by simp) h
      obtain ⟨last, hloop, hlast⟩ := ih
        (fun done item state hitem => hstep done item state (List.mem_cons_of_mem _ hitem))
        (done ++ [item]) middle hmiddle
      refine ⟨last, ?_, by simpa using hlast⟩
      rw [List.flatMap_cons]
      exact hbody.bind hloop

-- Whatever there is to read: the decoder yields a value with `post`, or nothing at all.
def Yields (decoder : Decoder β α) (post : α → Prop) : Prop :=
  ∀ cursor value cursor', decoder cursor = some (value, cursor') → post value

theorem Yields.pure {post : α → Prop} {value : α} (h : post value) :
    Yields (β := β) (Pure.pure value) post := by
  intro cursor value' cursor' hrun
  obtain ⟨rfl, -⟩ := Prod.mk.inj (Option.some.inj hrun)
  exact h

theorem Yields.bind {decoder : Decoder β α} {next : α → Decoder β γ} {middle : α → Prop}
    {post : γ → Prop} (hfirst : Yields decoder middle)
    (hnext : ∀ value, middle value → Yields (next value) post) :
    Yields (decoder >>= next) post := by
  intro cursor result cursor' hrun
  obtain ⟨⟨value, between⟩, hdecoder, hrest⟩ := Option.bind_eq_some_iff.mp hrun
  exact hnext value (hfirst cursor value between hdecoder) between result cursor' hrest

theorem Yields.any {decoder : Decoder β α} {post : α → Prop} (h : ∀ value, post value) :
    Yields decoder post := fun _ value _ _ => h value

theorem Yields.read (count : Nat) :
    Yields (β := β) (Decoder.read count) fun bytes => ∀ data, bytes = some data → data.length = count := by
  intro cursor bytes cursor' hrun data hdata
  have hread : cursor.read count = (some data, cursor') := by
    rw [← hdata]
    exact Option.some.inj hrun
  rw [Cursor.read, Cursor.length_sub_offset] at hread
  by_cases hroom : cursor.rest.length < count
  · rw [if_pos hroom] at hread
    exact absurd (Prod.mk.inj hread).1 (by simp)
  · rw [if_neg hroom] at hread
    obtain rfl := Option.some.inj (Prod.mk.inj hread).1
    rw [List.length_take, Nat.min_eq_left (Nat.le_of_not_lt hroom)]

-- Only the last step decides.
theorem Yields.bind_any {decoder : Decoder β α} {next : α → Decoder β γ} {post : γ → Prop}
    (hnext : ∀ value, Yields (next value) post) : Yields (decoder >>= next) post :=
  Yields.bind (Yields.any fun _ => trivial : Yields decoder fun _ => True) fun value _ => hnext value

theorem Yields.map {decoder : Decoder β α} {f : α → γ} {post : γ → Prop}
    (h : Yields decoder fun value => post (f value)) : Yields (f <$> decoder) post := by
  intro cursor result cursor' hrun
  obtain ⟨⟨value, between⟩, hdecoder, hrest⟩ := Option.bind_eq_some_iff.mp hrun
  obtain ⟨rfl, -⟩ := Prod.mk.inj (Option.some.inj hrest)
  exact h cursor value between hdecoder

theorem Yields.iterate {body : σ → Decoder β σ} {inv : σ → Prop}
    (hbody : ∀ state, inv state → Yields (body state) inv) (count : Nat) {state : σ}
    (h : inv state) : Yields (iterate body count state) inv := by
  induction count generalizing state with
  | zero => exact Yields.pure h
  | succ count ih => exact (hbody state h).bind fun state' h' => ih h'

-- The same with an invariant that counts the turns.
theorem Yields.iterate_turns {body : σ → Decoder β σ} {inv : Nat → σ → Prop}
    (hbody : ∀ done state, inv done state → Yields (body state) (inv (done + 1))) (count : Nat)
    {done : Nat} {state : σ} (h : inv done state) :
    Yields (Decoder.iterate body count state) (inv (done + count)) := by
  induction count generalizing done state with
  | zero => exact Yields.pure h
  | succ count ih =>
      refine (hbody done state h).bind fun state' h' => ?_
      rw [Nat.add_comm count 1, ← Nat.add_assoc]
      exact ih h'

end Decoder

end RoboCrisp.Stream
