import RoboCrisp.Ownership.Buffer

namespace RoboCrisp.Ownership

open Function RoboCrisp.Transition

variable {s u : State} {b b' : Buffer} {blocks blocks' : Blocks} {i j : Nat}

section Memory

variable {data ndata : Option Address} {address : Address} {size : Nat}

theorem read_zero (data : Option Address) : blocks.read data 0 = some [] := if_pos rfl

theorem read_of_starting {block : Block} (h : blocks.starting address = some block) :
    blocks.read (some address) size =
      if size ≤ block.contents.length then some (block.contents.take size) else none := by
  obtain ⟨hoffset, hblock⟩ := Option.ite_none_right_eq_some.mp h
  unfold Blocks.read
  split
  · rename_i hzero
    simp [hzero]
  · simp [hoffset, hblock]

theorem read_none (h : blocks.read none size = some bytes) : size = 0 ∧ bytes = [] := by
  by_cases hsize : size = 0
  · rw [hsize, read_zero] at h
    exact ⟨hsize, (Option.some.inj h).symm⟩
  · simp [Blocks.read, hsize] at h

theorem length_of_read {bytes : List Cell} (h : blocks.read data size = some bytes) :
    bytes.length = size := by
  unfold Blocks.read at h
  split at h
  · rename_i hzero
    rw [hzero, ← Option.some.inj h, List.length_nil]
  · obtain ⟨_, -, h⟩ := Option.bind_eq_some_iff.mp h
    obtain ⟨_, -, h⟩ := Option.bind_eq_some_iff.mp h
    obtain ⟨hle, h⟩ := Option.ite_none_right_eq_some.mp h
    rw [← Option.some.inj h, List.length_take, Nat.min_eq_left hle]

-- A new block lies behind all the others, and holds what it has been given.
theorem starting_malloc (blocks : Blocks) (contents : List Cell) :
    (blocks.malloc contents).2.starting (blocks.malloc contents).1 = some ⟨contents, .free⟩ := by
  simp [Blocks.starting, Blocks.malloc]

theorem read_malloc (blocks : Blocks) (contents : List Cell) :
    (blocks.malloc contents).2.read (some (blocks.malloc contents).1) contents.length =
      some contents := by
  rw [read_of_starting (starting_malloc _ _), if_pos (Nat.le_refl _), List.take_length]

theorem length_malloc (blocks : Blocks) (contents : List Cell) :
    (blocks.malloc contents).2.length = blocks.length + 1 := by
  simp [Blocks.malloc]

theorem length_call {free_function : FreeFunction} (h : blocks.call free_function address = some blocks') :
    blocks'.length = blocks.length := by
  obtain ⟨_, -, h⟩ := Option.bind_eq_some_iff.mp h
  obtain ⟨-, h⟩ := Option.ite_none_right_eq_some.mp h
  rw [← Option.some.inj h, Blocks.release, List.length_set]

-- What realloc does, and what it leaves behind the new pointer.
inductive Reallocated (blocks : Blocks) (size : Nat) :
    Option Address → Option Address → Blocks → Prop
  | fresh : Reallocated blocks size none
      (some (blocks.malloc (List.replicate size none)).1) (blocks.malloc (List.replicate size none)).2
  | released {address : Address} (hzero : size = 0) :
      Reallocated blocks size (some address) none (blocks.release address)
  | moved {address : Address} {block : Block} (hblock : blocks.starting address = some block)
      (hsize : size ≠ 0) :
      Reallocated blocks size (some address)
        (some ((blocks.release address).malloc (block.contents.take size ++
          List.replicate (size - block.contents.length) none)).1)
        ((blocks.release address).malloc (block.contents.take size ++
          List.replicate (size - block.contents.length) none)).2

theorem realloc_cases (h : blocks.realloc data size = some (ndata, blocks')) :
    Reallocated blocks size data ndata blocks' ∧ ∀ address ∈ data, ∃ block,
      blocks.starting address = some block ∧ block.freed_by = .free := by
  cases data with
  | none =>
      obtain ⟨rfl, rfl⟩ := Prod.mk.inj (Option.some.inj h)
      exact ⟨.fresh, by simp⟩
  | some address =>
      obtain ⟨block, hblock, h⟩ := Option.bind_eq_some_iff.mp h
      obtain ⟨hfree, h⟩ := Option.ite_none_right_eq_some.mp h
      refine ⟨?_, fun a ha => ?_⟩
      · split at h
        · rename_i hzero
          obtain ⟨rfl, rfl⟩ := Prod.mk.inj (Option.some.inj h)
          exact .released hzero
        · rename_i hsize
          obtain ⟨rfl, rfl⟩ := Prod.mk.inj (Option.some.inj h)
          exact .moved hblock hsize
      · obtain rfl := Option.mem_some_iff.mp ha
        exact ⟨block, hblock, hfree⟩

theorem exists_realloc (h : ∀ address ∈ data, ∃ block, blocks.starting address = some block ∧
    block.freed_by = .free) (size : Nat) :
    ∃ ndata blocks', blocks.realloc data size = some (ndata, blocks') := by
  cases data with
  | none => exact ⟨_, _, rfl⟩
  | some address =>
      obtain ⟨block, hblock, hfree⟩ := h address rfl
      by_cases hzero : size = 0
      · exact ⟨none, blocks.release address, by simp [Blocks.realloc, hblock, hfree, hzero]⟩
      · exact ⟨_, _, by simp only [Blocks.realloc, hblock, hfree, hzero, Option.bind_eq_bind,
          Option.bind_some, if_true, if_false]; rfl⟩

-- New memory is in a block that there was not.
theorem Reallocated.new (h : Reallocated blocks size data ndata blocks') :
    blocks.length ≤ blocks'.length ∧
      ∀ a ∈ ndata, blocks.length ≤ a.block ∧ a.block < blocks'.length := by
  cases h with
  | fresh => simp [Blocks.malloc]
  | released _ => simp [Blocks.release]
  | moved _ _ => simp [Blocks.malloc, Blocks.release]

-- What is added has not been stored to. So the bytes that resize should leave are there only if
-- they were there before.
theorem Reallocated.read_iff {bytes : List Cell} {length : Nat}
    (h : Reallocated blocks size data ndata blocks')
    (hkept : blocks.read data (min length size) = some bytes) :
    blocks'.read ndata size = some (bytes ++ List.replicate (size - length) (some 0)) ↔
      blocks.read data size = some (bytes ++ List.replicate (size - length) (some 0)) := by
  cases h with
  | released hzero => rw [hzero, read_zero, read_zero]
  | fresh =>
      obtain ⟨hmin, rfl⟩ := read_none hkept
      by_cases hsize : size = 0
      · subst hsize
        rw [read_zero, read_zero]
      · obtain rfl : length = 0 := by omega
        have hread := read_malloc blocks (List.replicate size none)
        rw [List.length_replicate] at hread
        rw [hread]
        constructor
        · intro h
          have hcells : List.replicate size (none : Cell) = List.replicate size (some 0) := by
            simpa using Option.some.inj h
          have hmem : (none : Cell) ∈ List.replicate size (some 0) := by
            rw [← hcells]
            exact List.mem_replicate.mpr ⟨hsize, rfl⟩
          have := List.eq_of_mem_replicate hmem
          contradiction
        · exact fun h => absurd (read_none h).1 hsize
  | @moved _ block hblock hsize =>
      have hlength : (block.contents.take size ++
          List.replicate (size - block.contents.length) none).length = size := by
        simp only [List.length_append, List.length_take, List.length_replicate]
        omega
      have hread := read_malloc (blocks.release ‹Address›) (block.contents.take size ++
          List.replicate (size - block.contents.length) none)
      rw [hlength] at hread
      rw [hread, read_of_starting hblock]
      rw [read_of_starting hblock] at hkept
      by_cases hle : size ≤ block.contents.length
      · rw [if_pos hle, Nat.sub_eq_zero_of_le hle, List.replicate_zero, List.append_nil]
      · rw [if_neg hle]
        refine ⟨fun h => ?_, fun h => absurd h (by simp)⟩
        have hmin : min length size ≤ block.contents.length := (Option.ite_none_right_eq_some.mp hkept).1
        have hlast := congrArg List.getLast? (Option.some.inj h)
        rw [List.getLast?_append, List.getLast?_append, List.getLast?_replicate,
          List.getLast?_replicate, if_neg (by omega), if_neg (by omega)] at hlast
        exact absurd hlast (by simp)

end Memory

section Objects

variable {made : Buffer × Blocks} {address : Address}

theorem buffer_add (s : State) (made : Buffer × Blocks) :
    (s.add made).buffer = update s.buffer s.buffers.length (some made.1) := by
  funext j
  rw [update_apply, State.buffer, State.add, List.getElem?_append]
  split
  · rename_i hlt
    rw [if_neg (by omega)]
    rfl
  · split
    · rename_i hj
      simp [hj]
    · rename_i hge hj
      rw [List.getElem?_eq_none (by rw [List.length_singleton]; omega), State.buffer,
        List.getElem?_eq_none (by omega)]

theorem lt_of_buffer (h : s.buffer i = some b) : i < s.buffers.length := by
  by_contra hge
  rw [State.buffer, List.getElem?_eq_none (by omega)] at h
  exact absurd h (by simp)

theorem buffer_set (hi : i < s.buffers.length) (o : Option Buffer) (blocks : Blocks) :
    (State.buffer ⟨blocks, s.buffers.set i o⟩) = update s.buffer i o := by
  funext j
  rw [update_apply, State.buffer, List.getElem?_set]
  by_cases hj : i = j
  · rw [if_pos hj, if_pos hi, if_pos hj.symm]
    rfl
  · rw [if_neg hj, if_neg (Ne.symm hj)]
    rfl

theorem owner_eq_comp (s : State) : s.owner = (fun o => o >>= Buffer.owned) ∘ s.buffer := rfl

theorem owner_add (s : State) (made : Buffer × Blocks) :
    (s.add made).owner = update s.owner s.buffers.length made.1.owned := by
  rw [owner_eq_comp, buffer_add, comp_update, ← owner_eq_comp]
  rfl

theorem owner_set (hi : i < s.buffers.length) (o : Option Buffer) (blocks : Blocks) :
    (State.owner ⟨blocks, s.buffers.set i o⟩) = update s.owner i (o >>= Buffer.owned) := by
  rw [owner_eq_comp, buffer_set hi, comp_update, ← owner_eq_comp]

-- Besides, whatever is owned is in memory that has been there.
structure State.Inv (s : State) : Prop extends s.Owned where
  bounded : ∀ i address, s.owner i = some address → address.block < s.blocks.length

theorem State.inv_start : State.start.Inv where
  freeable i b h := absurd h (by simp [State.start, State.buffer])
  exclusive _ _ _ h := absurd h (by simp [State.start, State.owner, State.buffer])
  bounded i address h := absurd h (by simp [State.start, State.owner, State.buffer])

-- An object is made, or changed.
theorem State.Inv.add (h : s.Inv) (hgrow : s.blocks.length ≤ made.2.length)
    (hfree : made.1.owned.isSome → made.1.free_function.isSome)
    (hnew : ∀ address ∈ made.1.owned, address.block < made.2.length ∧
      ∀ j, s.owner j ≠ some address) : (s.add made).Inv := by
  refine ⟨⟨fun j b hb howned => ?_, ?_⟩, fun j address haddress => ?_⟩
  · rw [buffer_add, update_apply] at hb
    split at hb
    · obtain rfl := Option.some.inj hb
      exact hfree howned
    · exact h.freeable j b hb howned
  · rw [owner_add]
    cases hmade : made.1.owned with
    | none => exact h.exclusive.drop _
    | some address => exact h.exclusive.take _ fun j _ => (hnew address hmade).2 j
  · rw [owner_add, update_apply] at haddress
    split at haddress
    · exact (hnew address haddress).1
    · exact Nat.lt_of_lt_of_le (h.bounded j address haddress) hgrow

theorem State.Inv.put (h : s.Inv) (hi : i < s.buffers.length)
    (hgrow : s.blocks.length ≤ made.2.length)
    (hfree : made.1.owned.isSome → made.1.free_function.isSome)
    (hnew : ∀ address ∈ made.1.owned, address.block < made.2.length ∧
      ∀ j, j ≠ i → s.owner j ≠ some address) : (s.put i made).Inv := by
  refine ⟨⟨fun j b hb howned => ?_, ?_⟩, fun j address haddress => ?_⟩
  · rw [State.put, buffer_set hi, update_apply] at hb
    split at hb
    · obtain rfl := Option.some.inj hb
      exact hfree howned
    · exact h.freeable j b hb howned
  · rw [State.put, owner_set hi]
    change Exclusive (update s.owner i made.1.owned)
    cases hmade : made.1.owned with
    | none => exact h.exclusive.drop _
    | some address => exact h.exclusive.take _ (hnew address hmade).2
  · rw [State.put, owner_set hi, update_apply] at haddress
    split at haddress
    · exact (hnew address haddress).1
    · exact Nat.lt_of_lt_of_le (h.bounded j address haddress) hgrow

theorem State.Inv.not_owner (h : s.Inv) (hnew : s.blocks.length ≤ address.block) (i : Nat) :
    s.owner i ≠ some address := fun howner => by
  have := h.bounded i address howner
  omega

-- Memory that has just been allocated.
theorem State.Inv.allocate (h : s.Inv) (contents : List Cell) :
    (s.add (Buffer.allocate s.blocks contents)).Inv := by
  have hlength := length_malloc s.blocks contents
  refine h.add (by simp only [Buffer.allocate]; omega) (fun _ => rfl) fun address haddress => ?_
  obtain rfl := Option.some.inj haddress
  exact ⟨by simp [Buffer.allocate, Blocks.malloc], h.not_owner (Nat.le_refl _)⟩

theorem State.Inv.copy_data (h : s.Inv) {data : Option Address} {length : Nat}
    (hcopy : Buffer.copy_data s.blocks data length = some made) : (s.add made).Inv := by
  obtain ⟨bytes, -, hcopy⟩ := Option.bind_eq_some_iff.mp hcopy
  obtain rfl := Option.some.inj hcopy
  exact h.allocate bytes

-- What resize makes of a buffer owns what it did, or new memory.
theorem owned_resize {capacity : Nat} (h : b.resize blocks capacity = some made) :
    blocks.length ≤ made.2.length ∧ made.1.free_function = b.free_function ∧
      made.1.length = capacity ∧
      ∀ address ∈ made.1.owned, blocks.length ≤ address.block ∧ address.block < made.2.length := by
  unfold Buffer.resize at h
  split at h
  · obtain ⟨bytes, -, h⟩ := Option.bind_eq_some_iff.mp h
    obtain rfl := Option.some.inj h
    refine ⟨by simp, rfl, rfl, fun address haddress => ?_⟩
    obtain rfl := Option.some.inj haddress
    simp
  · obtain ⟨⟨ndata, blocks'⟩, hrealloc, h⟩ := Option.bind_eq_some_iff.mp h
    obtain rfl := Option.some.inj h
    obtain ⟨hgrow, hnew⟩ := (realloc_cases hrealloc).1.new
    refine ⟨hgrow, rfl, rfl, fun address haddress => hnew address ?_⟩
    exact (Option.ite_none_right_eq_some.mp haddress).2

theorem length_discard (h : b.discard blocks = some blocks') : blocks'.length = blocks.length := by
  unfold Buffer.discard at h
  split at h
  · exact length_call h
  · rw [← Option.some.inj h]

theorem length_destroy (h : b.destroy blocks = some blocks') : blocks'.length = blocks.length := by
  unfold Buffer.destroy at h
  split at h
  · split at h
    · obtain ⟨_, -, h⟩ := Option.bind_eq_some_iff.mp h
      exact length_call h
    · rw [← Option.some.inj h]
  · rw [← Option.some.inj h]

theorem State.Inv.move (h : s.Inv) (hb : s.buffer i = some b) :
    ((s.put i (b.movedFrom, s.blocks)).add (b, s.blocks)).Inv := by
  have hi := lt_of_buffer hb
  have hput : (s.put i (b.movedFrom, s.blocks)).Inv :=
    h.put hi (Nat.le_refl _) (by simp [Buffer.movedFrom, Buffer.owned])
      (by simp [Buffer.movedFrom, Buffer.owned])
  have howner : b.owned = s.owner i := by
    rw [State.owner, hb]
    rfl
  refine hput.add (Nat.le_refl _) (h.freeable i b hb) fun address haddress => ?_
  have haddress : s.owner i = some address := howner ▸ haddress
  refine ⟨h.bounded i address haddress, fun j hj => ?_⟩
  rw [State.put, owner_set hi, update_apply] at hj
  split at hj
  · exact absurd hj (by simp [Buffer.movedFrom, Buffer.owned])
  · rename_i hne
    exact hne (h.exclusive j i address hj haddress)

theorem State.Inv.reset (h : s.Inv) {source : Nat} {o : Buffer} (hb : s.buffer i = some b)
    (ho : s.buffer source = some o) (hlength : blocks.length = s.blocks.length) :
    ((s.put i (o, blocks)).put source (o.resetFrom, blocks)).Inv := by
  have hi := lt_of_buffer hb
  have hsource := lt_of_buffer ho
  have hsource' : source < (s.put i (o, blocks)).buffers.length := by
    rwa [State.put, List.length_set]
  have howned : s.owner source = o.owned := by
    rw [State.owner, ho]
    rfl
  have howner : ((s.put i (o, blocks)).put source (o.resetFrom, blocks)).owner =
      update (update s.owner i (s.owner source)) source none := by
    rw [State.put, owner_set hsource', State.put, owner_set hi, howned]
    rfl
  refine ⟨⟨fun j c hc howned => ?_, howner ▸ h.exclusive.transfer i source⟩,
    fun j address haddress => ?_⟩
  · rw [State.put, buffer_set hsource', State.put, buffer_set hi, update_apply, update_apply] at hc
    split at hc
    · obtain rfl := Option.some.inj hc
      exact absurd howned (by simp [Buffer.resetFrom, Buffer.owned])
    · split at hc
      · obtain rfl := Option.some.inj hc
        exact h.freeable source o ho howned
      · exact h.freeable j c hc howned
  · rw [howner, update_apply, update_apply] at haddress
    change address.block < blocks.length
    rw [hlength]
    split at haddress
    · contradiction
    · split at haddress
      · exact h.bounded source address haddress
      · exact h.bounded j address haddress

theorem State.Inv.destroy (h : s.Inv) (hb : s.buffer i = some b)
    (hlength : blocks.length = s.blocks.length) : State.Inv ⟨blocks, s.buffers.set i none⟩ := by
  have hi := lt_of_buffer hb
  refine ⟨⟨fun j c hc howned => ?_, ?_⟩, fun j address haddress => ?_⟩
  · rw [buffer_set hi, update_apply] at hc
    split at hc
    · contradiction
    · exact h.freeable j c hc howned
  · rw [owner_set hi]
    exact h.exclusive.drop i
  · rw [owner_set hi, update_apply] at haddress
    change address.block < blocks.length
    rw [hlength]
    split at haddress
    · contradiction
    · exact h.bounded j address haddress

end Objects

section Steps

variable {op : Op} {capacity : Nat}

theorem State.Inv.take_ownership (h : s.Inv) {data : Option Address} {length : Nat}
    {ff : Option FreeFunction} (hallowed : Allowed s (.take_ownership data length ff))
    (htake : Takeable s.blocks data) :
    (s.add (.take_ownership data length ff, s.blocks)).Inv := by
  refine h.add (Nat.le_refl _) (fun hsome => ?_) fun address haddress => ?_
  · obtain ⟨address, haddress⟩ := Option.isSome_iff_exists.mp hsome
    exact (hallowed htake address haddress).1
  · refine ⟨?_, (hallowed htake address haddress).2⟩
    have hstart := htake address haddress
    by_contra hge
    have hge : s.blocks.length ≤ address.block := Nat.le_of_not_lt hge
    rw [Blocks.starting, List.getElem?_eq_none hge] at hstart
    simp at hstart

-- One call.
theorem State.Inv.step (h : s.Inv) (hallowed : Allowed s op) (hstep : s.step op = some u) :
    u.Inv := by
  cases op with
  | memory block =>
      obtain rfl := Option.some.inj hstep
      refine ⟨⟨h.freeable, h.exclusive⟩, fun i address howner => ?_⟩
      have := h.bounded i address howner
      simp only [List.length_append, List.length_singleton]
      omega
  | default =>
      obtain rfl := Option.some.inj hstep
      exact h.add (Nat.le_refl _) (by simp [Buffer.default, Buffer.owned])
        (by simp [Buffer.default, Buffer.owned])
  | from_pointer data length =>
      obtain rfl := Option.some.inj hstep
      exact h.add (Nat.le_refl _) (by simp [Buffer.from_pointer, Buffer.owned])
        (by simp [Buffer.from_pointer, Buffer.owned])
  | take_ownership data length ff =>
      obtain ⟨htake, hstep⟩ := Option.ite_none_right_eq_some.mp hstep
      obtain rfl := Option.some.inj hstep
      exact h.take_ownership hallowed htake
  | create length =>
      obtain rfl := Option.some.inj hstep
      exact h.allocate _
  | copy_data data length =>
      obtain ⟨made, hcopy, hstep⟩ := Option.bind_eq_some_iff.mp hstep
      obtain rfl := Option.some.inj hstep
      exact h.copy_data hcopy
  | copy i =>
      obtain ⟨b, -, hstep⟩ := Option.bind_eq_some_iff.mp hstep
      obtain ⟨made, hcopy, hstep⟩ := Option.bind_eq_some_iff.mp hstep
      obtain rfl := Option.some.inj hstep
      exact h.copy_data hcopy
  | move i =>
      obtain ⟨b, hb, hstep⟩ := Option.bind_eq_some_iff.mp hstep
      obtain rfl := Option.some.inj hstep
      exact h.move hb
  | resize i capacity =>
      obtain ⟨b, hb, hstep⟩ := Option.bind_eq_some_iff.mp hstep
      obtain ⟨made, hresize, hstep⟩ := Option.bind_eq_some_iff.mp hstep
      obtain rfl := Option.some.inj hstep
      obtain ⟨hgrow, hff, -, hnew⟩ := owned_resize hresize
      refine h.put (lt_of_buffer hb) hgrow (fun _ => ?_) fun address haddress => ?_
      · rw [hff]
        exact (hallowed b hb).1
      · obtain ⟨hge, hlt⟩ := hnew address haddress
        exact ⟨hlt, fun j _ => h.not_owner hge j⟩
  | reset i source =>
      obtain ⟨b, hb, hstep⟩ := Option.bind_eq_some_iff.mp hstep
      obtain ⟨blocks, hdiscard, hstep⟩ := Option.bind_eq_some_iff.mp hstep
      obtain ⟨o, ho, hstep⟩ := Option.bind_eq_some_iff.mp hstep
      obtain rfl := Option.some.inj hstep
      exact h.reset hb ho (length_discard hdiscard)
  | destroy i =>
      obtain ⟨b, hb, hstep⟩ := Option.bind_eq_some_iff.mp hstep
      obtain ⟨blocks, hdestroy, hstep⟩ := Option.bind_eq_some_iff.mp hstep
      obtain rfl := Option.some.inj hstep
      exact h.destroy hb (length_destroy hdestroy)

theorem step_resize (hb : s.buffer i = some b) : s.step (.resize i capacity) =
    (b.resize s.blocks capacity).map (s.put i) := by
  simp only [State.step, hb, Option.bind_eq_bind, Option.bind_some, Option.map_eq_bind]
  rfl

theorem buffer_put (hb : s.buffer i = some b) (made : Buffer × Blocks) :
    (s.put i made).buffer i = some made.1 := by
  rw [State.put, buffer_set (lt_of_buffer hb), update_self]

theorem resized_put_iff {made : Buffer × Blocks} (hb : s.buffer i = some b)
    (hlength : made.1.length = capacity) : Resized s (s.put i made) i capacity b ↔
      ∃ bytes, s.blocks.read b.data (min b.length capacity) = some bytes ∧
        made.2.read made.1.data capacity =
          some (bytes ++ List.replicate (capacity - b.length) (some 0)) := by
  have hbuffer := buffer_put hb made
  constructor
  · rintro ⟨b', bytes, hb', -, hread, hread'⟩
    obtain rfl := Option.some.inj (hbuffer.symm.trans hb')
    exact ⟨bytes, hread, hread'⟩
  · rintro ⟨bytes, hread, hread'⟩
    exact ⟨made.1, bytes, hbuffer, hlength, hread, hread'⟩

-- A buffer that doesn't own its data.
theorem resized_borrowed_iff (hb : s.buffer i = some b) (howns : b.owns_data = false) :
    (∃ u, s.step (.resize i capacity) = some u ∧ Resized s u i capacity b) ↔
      ∃ bytes, s.blocks.read b.data (min b.length capacity) = some bytes := by
  rw [step_resize hb]
  constructor
  · rintro ⟨u, -, _, bytes, -, -, hread, -⟩
    exact ⟨bytes, hread⟩
  · rintro ⟨bytes, hread⟩
    have hresize : b.resize s.blocks capacity =
        some (⟨some (s.blocks.malloc (bytes ++ List.replicate (capacity - b.length) (some 0))).1,
          capacity, true, b.free_function⟩,
          (s.blocks.malloc (bytes ++ List.replicate (capacity - b.length) (some 0))).2) := by
      rw [Buffer.resize, if_pos howns, hread]
      rfl
    rw [hresize]
    refine ⟨_, rfl, (resized_put_iff hb rfl).mpr ⟨bytes, hread, ?_⟩⟩
    have hlength : (bytes ++ List.replicate (capacity - b.length) (some 0)).length = capacity := by
      rw [List.length_append, List.length_replicate, length_of_read hread]
      omega
    have hnew := read_malloc s.blocks (bytes ++ List.replicate (capacity - b.length) (some 0))
    rwa [hlength] at hnew

-- One that does.
theorem resized_owned_iff (hb : s.buffer i = some b) (howns : b.owns_data = true) :
    (∃ u, s.step (.resize i capacity) = some u ∧ Resized s u i capacity b) ↔
      (∀ address ∈ b.data, ∃ block, s.blocks.starting address = some block ∧ block.freed_by = .free) ∧
        ∃ bytes, s.blocks.read b.data (min b.length capacity) = some bytes ∧
          s.blocks.read b.data capacity =
            some (bytes ++ List.replicate (capacity - b.length) (some 0)) := by
  rw [step_resize hb, Buffer.resize, if_neg (by simp [howns])]
  constructor
  · rintro ⟨u, hstep, hresized⟩
    obtain ⟨made, hresize, rfl⟩ := Option.map_eq_some_iff.mp hstep
    obtain ⟨⟨ndata, blocks'⟩, hrealloc, hresize⟩ := Option.bind_eq_some_iff.mp hresize
    obtain rfl := Option.some.inj hresize
    obtain ⟨bytes, hread, hread'⟩ := (resized_put_iff hb rfl).mp hresized
    obtain ⟨hcases, hfree⟩ := realloc_cases hrealloc
    exact ⟨hfree, bytes, hread, (hcases.read_iff hread).mp hread'⟩
  · rintro ⟨hfree, bytes, hread, hread'⟩
    obtain ⟨ndata, blocks', hrealloc⟩ := exists_realloc hfree capacity
    rw [hrealloc]
    exact ⟨_, rfl, (resized_put_iff hb rfl).mpr ⟨bytes, hread,
      ((realloc_cases hrealloc).1.read_iff hread).mpr hread'⟩⟩

-- What is resized owns memory then, unless nothing is left of it.
theorem free_function_of_owned (h : s.Inv) (hb : s.buffer i = some b) {made : Buffer × Blocks}
    (hresize : b.resize s.blocks capacity = some made) (howned : (s.put i made).Owned) :
    b.free_function.isSome := by
  have hbuffer := buffer_put hb made
  have hff := (owned_resize hresize).2.1
  rw [← hff]
  unfold Buffer.resize at hresize
  split at hresize
  · obtain ⟨bytes, -, hresize⟩ := Option.bind_eq_some_iff.mp hresize
    obtain rfl := Option.some.inj hresize
    exact howned.freeable i _ hbuffer rfl
  · rename_i howns
    obtain ⟨⟨ndata, blocks'⟩, hrealloc, hresize⟩ := Option.bind_eq_some_iff.mp hresize
    obtain rfl := Option.some.inj hresize
    cases hdata : b.data with
    | some address => exact h.freeable i b hb (by simp [Buffer.owned, howns, hdata])
    | none =>
        rw [hdata] at hrealloc
        obtain ⟨rfl, rfl⟩ := Prod.mk.inj (Option.some.inj hrealloc)
        exact howned.freeable i _ hbuffer (by simp [Buffer.owned, howns])

theorem correct_resize_iff (h : s.Inv) : Correct s (.resize i capacity) ↔
    Allowed s (.resize i capacity) := by
  constructor
  · rintro ⟨howned, hresized⟩ b hb
    have hb : s.buffer i = some b := hb
    obtain ⟨u, hstep, hu⟩ := hresized i capacity b rfl hb
    have hstep' := hstep
    rw [step_resize hb] at hstep'
    obtain ⟨made, hresize, rfl⟩ := Option.map_eq_some_iff.mp hstep'
    refine ⟨free_function_of_owned h hb hresize (howned _ hstep), ?_⟩
    cases howns : b.owns_data with
    | true => simpa using (resized_owned_iff hb howns).mp ⟨_, hstep, hu⟩
    | false => simpa using (resized_borrowed_iff hb howns).mp ⟨_, hstep, hu⟩
  · intro hallowed
    refine ⟨fun u hstep => (h.step hallowed hstep).toOwned, fun i' capacity' b hop hb => ?_⟩
    obtain ⟨rfl, rfl⟩ := Op.resize.inj hop
    obtain ⟨-, hcan⟩ := hallowed b hb
    cases howns : b.owns_data with
    | true => exact (resized_owned_iff hb howns).mpr (by simpa [howns] using hcan)
    | false => exact (resized_borrowed_iff hb howns).mpr (by simpa [howns] using hcan)

theorem allowed_take_ownership {data : Option Address} {length : Nat} {ff : Option FreeFunction}
    (h : Correct s (.take_ownership data length ff)) :
    Allowed s (.take_ownership data length ff) := by
  intro htake address haddress
  have howned := h.1 _ (if_pos htake)
  have hdata : data = some address := haddress
  have hbuffer : (s.add (.take_ownership data length ff, s.blocks)).buffer s.buffers.length =
      some (.take_ownership data length ff) := by
    rw [buffer_add, update_self]
  refine ⟨howned.freeable _ _ hbuffer (by simp [Buffer.take_ownership, Buffer.owned, hdata]),
    fun i howner => ?_⟩
  have hi : i < s.buffers.length := by
    obtain ⟨b, hb, -⟩ := Option.bind_eq_some_iff.mp howner
    exact lt_of_buffer hb
  have hsame := howned.exclusive i s.buffers.length address
    (by rw [owner_add, update_of_ne (by omega), howner])
    (by rw [owner_add, update_self]; simp [Buffer.take_ownership, Buffer.owned, hdata])
  omega

theorem correct_iff (h : s.Inv) : Correct s op ↔ Allowed s op := by
  have hkeep : Allowed s op → (∀ i capacity, op ≠ .resize i capacity) → Correct s op := by
    intro hallowed hresize
    exact ⟨fun u hstep => (h.step hallowed hstep).toOwned,
      fun i capacity b hop _ => absurd hop (hresize i capacity)⟩
  cases op with
  | resize i capacity => exact correct_resize_iff h
  | take_ownership data length ff =>
      exact ⟨allowed_take_ownership, fun hallowed => hkeep hallowed (by simp)⟩
  | _ => exact ⟨fun _ => trivial, fun hallowed => hkeep hallowed (by simp)⟩

theorem correct_along_iff (ops : List Op) :
    Along Correct State.step State.start ops ↔ Along Allowed State.step State.start ops :=
  along_iff State.inv_start (fun hinv hallowed hstep => hinv.step hallowed hstep) correct_iff

-- A buffer that refers to a byte of the program, and is resized.
def borrowed : List Op := [.memory ⟨[some 7], .other 0⟩, .from_pointer (some ⟨0, 0⟩) 1]

theorem borrowed_not_correct : ¬∀ ops, Along Correct State.step State.start ops := by
  intro h
  have hrun : Run State.step Always State.start borrowed
      ⟨[some ⟨[some 7], .other 0⟩], [some ⟨some ⟨0, 0⟩, 1, false, none⟩]⟩ :=
    Run.of_foldlM rfl
  have hcorrect := h (borrowed ++ [.resize 0 2]) List.prefix_rfl hrun
  have howned := hcorrect.1 _ rfl
  exact absurd (howned.freeable 0 _ rfl rfl) (by decide)

end Steps

end RoboCrisp.Ownership
