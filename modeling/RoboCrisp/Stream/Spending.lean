import RoboCrisp.Stream.Cursor

namespace RoboCrisp.Stream.Decoder

variable {β α γ σ : Type} {limit limit' : Nat}

-- With `limit` cells in front of it the decoder never comes up short: it takes at most that
-- many, and `post` tells how many it has taken for its value.
def Spends (limit : Nat) (decoder : Decoder β α) (post : Nat → α → Prop) : Prop :=
  ∀ cursor, limit ≤ cursor.rest.length → ∀ value cursor', decoder cursor = some (value, cursor') →
    ∃ count ≤ limit, cursor.rest.length = cursor'.rest.length + count ∧ post count value

theorem Spends.imp {decoder : Decoder β α} {post post' : Nat → α → Prop}
    (h : Spends limit decoder post) (hle : limit ≤ limit')
    (himp : ∀ count ≤ limit, ∀ value, post count value → post' count value) :
    Spends limit' decoder post' := by
  intro cursor hlimit value cursor' hrun
  obtain ⟨count, hcount, hlength, hpost⟩ := h cursor (Nat.le_trans hle hlimit) value cursor' hrun
  exact ⟨count, Nat.le_trans hcount hle, hlength, himp count hcount value hpost⟩

theorem Spends.pure {post : Nat → α → Prop} {value : α} (h : post 0 value) :
    Spends (β := β) limit (Pure.pure value) post := by
  intro cursor _ value' cursor' hrun
  obtain ⟨rfl, rfl⟩ := Prod.mk.inj (Option.some.inj hrun)
  exact ⟨0, Nat.zero_le _, rfl, h⟩

theorem Spends.bind {decoder : Decoder β α} {next : α → Decoder β γ} {middle : Nat → α → Prop}
    {post : Nat → γ → Prop} (hfirst : Spends limit decoder middle)
    (hnext : ∀ spent value, middle spent value →
      Spends limit' (next value) fun count => post (spent + count)) :
    Spends (limit + limit') (decoder >>= next) post := by
  intro cursor hlimit result cursor' hrun
  obtain ⟨⟨value, between⟩, hdecoder, hrest⟩ := Option.bind_eq_some_iff.mp hrun
  obtain ⟨spent, hspent, hlength, hmiddle⟩ := hfirst cursor (by omega) value between hdecoder
  obtain ⟨count, hcount, hlength', hpost⟩ :=
    hnext spent value hmiddle between (by omega) result cursor' hrest
  exact ⟨spent + count, by omega, by omega, hpost⟩

-- Nothing is read any more.
theorem Spends.bind_last {decoder : Decoder β α} {next : α → Decoder β γ}
    {middle : Nat → α → Prop} {post : Nat → γ → Prop} (hfirst : Spends limit decoder middle)
    (hnext : ∀ spent value, middle spent value →
      Spends 0 (next value) fun count => post (spent + count)) :
    Spends limit (decoder >>= next) post :=
  hfirst.bind hnext

theorem Spends.lift_bind {next : α → Decoder β γ} {post : Nat → γ → Prop} {result : Option α}
    (h : ∀ value, result = some value → Spends limit (next value) post) :
    Spends limit (StateT.lift result >>= next) post := by
  cases result with
  | none =>
      intro cursor _ value cursor' hrun
      cases hrun
  | some value => exact h value rfl

-- A decoder that takes any `count` cells takes the ones that are there.
theorem Spends.of_forall_consumes {decoder : Decoder β α} {post : Nat → α → Prop} {count : Nat}
    (h : ∀ wire : List β, wire.length = count → ∃ value, Consumes decoder wire value ∧
      post count value) : Spends count decoder post := by
  intro cursor hcount value cursor' hrun
  have hlength : (cursor.rest.take count).length = count := by
    rw [List.length_take]
    omega
  obtain ⟨value', hconsumes, hpost⟩ := h _ hlength
  have hresult := hconsumes cursor _ (List.take_append_drop count cursor.rest).symm
  obtain ⟨rfl, rfl⟩ := Prod.mk.inj (Option.some.inj (hrun.symm.trans hresult))
  refine ⟨count, Nat.le_refl _, ?_, hpost⟩
  rw [Cursor.rest_advance, List.length_drop, hlength]
  omega

theorem Spends.read (count : Nat) :
    Spends (β := β) count (Decoder.read count) fun spent cells =>
      spent = count ∧ ∃ data, cells = some data ∧ data.length = count :=
  Spends.of_forall_consumes fun wire hlength =>
    ⟨some wire, Consumes.read hlength, rfl, wire, rfl, hlength⟩

theorem Spends.peek {next : β → Decoder β α} {post : Nat → α → Prop}
    (h : ∀ cell, Spends limit (next cell) post) : Spends limit (Decoder.peek >>= next) post := by
  intro cursor hlimit value cursor' hrun
  obtain ⟨⟨cell, between⟩, hpeek, hnext⟩ := Option.bind_eq_some_iff.mp hrun
  obtain ⟨cell', -, hcell⟩ := Option.map_eq_some_iff.mp hpeek
  obtain ⟨rfl, rfl⟩ := Prod.mk.inj hcell
  exact h cell' cursor hlimit value cursor' hnext

-- A look at the cursor, which has the cells.
theorem Spends.get {next : Cursor β → Decoder β α} {post : Nat → α → Prop}
    (h : ∀ cursor : Cursor β, limit ≤ cursor.length - cursor.offset →
      Spends limit (next cursor) post) :
    Spends limit (MonadState.get >>= next) post := by
  intro cursor hlimit value cursor' hrun
  have hlength : limit ≤ cursor.length - cursor.offset := by
    rwa [Cursor.length_sub_offset]
  exact h cursor hlength cursor hlimit value cursor' hrun

-- The loop rule: `inv` is kept by each turn, with what has been spent so far.
theorem Spends.iterate {body : σ → Decoder β σ} {inv : Nat → σ → Prop}
    (hbody : ∀ spent state, inv spent state →
      Spends limit (body state) fun count => inv (spent + count))
    (turns : Nat) {spent : Nat} {state : σ} (h : inv spent state) :
    Spends (turns * limit) (Decoder.iterate body turns state) fun count => inv (spent + count) := by
  induction turns generalizing spent state with
  | zero => exact Spends.pure h
  | succ turns ih =>
      have hloop : Spends (limit + turns * limit) (Decoder.iterate body (turns + 1) state)
          fun count => inv (spent + count) :=
        (hbody spent state h).bind fun count state' h' =>
          (ih h').imp (Nat.le_refl _) fun _ _ _ hinv => by rwa [Nat.add_assoc] at hinv
      rwa [Nat.add_comm limit, ← Nat.succ_mul] at hloop

-- A decoder that consumes a wire has spent it.
theorem Spends.of_consumes [Inhabited β] {decoder : Decoder β α} {post : Nat → α → Prop}
    {wire : List β} {value : α} (h : Spends limit decoder post)
    (hconsumes : Consumes decoder wire value) : post wire.length value := by
  let cursor := Cursor.ofList (wire ++ List.replicate limit default)
  have hlength : cursor.rest.length = wire.length + limit := by
    rw [Cursor.rest_ofList, List.length_append, List.length_replicate]
  obtain ⟨count, -, hcount, hpost⟩ := h cursor (by omega) value _ (hconsumes cursor _ rfl)
  rw [Cursor.rest_advance, List.length_drop] at hcount
  obtain rfl : count = wire.length := by omega
  exact hpost

end RoboCrisp.Stream.Decoder
