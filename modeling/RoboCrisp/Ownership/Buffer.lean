import RoboCrisp.Ownership.Exclusive
import RoboCrisp.Transition.Run

namespace RoboCrisp.Ownership

-- Pointers to functions that give memory back.
inductive FreeFunction
  | free
  | other (code : Nat)
deriving DecidableEq

-- A byte, or `none` where nothing has been stored yet.
abbrev Cell := Option UInt8

structure Block where
  contents : List Cell
  freed_by : FreeFunction
deriving DecidableEq

structure Address where
  block : Nat
  offset : Nat
deriving DecidableEq

-- Blocks keep their number. The ones that have been given back are `none`.
abbrev Blocks := List (Option Block)

namespace Blocks

variable (blocks : Blocks)

-- The first `size` bytes behind a pointer. Without any bytes to read it isn't followed.
def read (data : Option Address) (size : Nat) : Option (List Cell) :=
  if size = 0 then some []
  else do
    let address ← data
    let block ← blocks[address.block]?.join
    let rest := block.contents.drop address.offset
    if size ≤ rest.length then some (rest.take size) else none

-- The block that starts at an address, for the functions that give memory back.
def starting (address : Address) : Option Block :=
  if address.offset = 0 then blocks[address.block]?.join else none

def malloc (contents : List Cell) : Address × Blocks :=
  (⟨blocks.length, 0⟩, blocks ++ [some ⟨contents, .free⟩])

def release (address : Address) : Blocks := blocks.set address.block none

-- There is no result for memory that `free_function` can't give back.
def call (free_function : FreeFunction) (address : Address) : Option Blocks := do
  let block ← starting blocks address
  if block.freed_by = free_function then some (release blocks address) else none

-- A new block with the bytes of the old one, as far as they go. With a size of zero, the old one
-- is only given back.
def realloc (data : Option Address) (size : Nat) : Option (Option Address × Blocks) :=
  match data with
  | none =>
      let (address, blocks) := malloc blocks (List.replicate size none)
      some (some address, blocks)
  | some address => do
      let block ← starting blocks address
      if block.freed_by = .free then
        if size = 0 then some (none, release blocks address)
        else
          let contents := block.contents.take size ++
            List.replicate (size - block.contents.length) none
          let (ndata, blocks) := malloc (release blocks address) contents
          some (some ndata, blocks)
      else none

end Blocks

structure Buffer where
  data : Option Address
  length : Nat
  owns_data : Bool
  free_function : Option FreeFunction
deriving DecidableEq

namespace Buffer

-- Buffer()
def default : Buffer := ⟨none, 0, false, none⟩

-- Buffer(const char*, size_t) and from_pointer
def from_pointer (data : Option Address) (length : Nat) : Buffer := ⟨data, length, false, none⟩

-- Buffer(char*, size_t, FreeFunctionType&&) and take_ownership
def take_ownership (data : Option Address) (length : Nat) (ff : Option FreeFunction) : Buffer :=
  ⟨data, length, true, ff⟩

-- A buffer that owns new memory.
def allocate (blocks : Blocks) (contents : List Cell) : Buffer × Blocks :=
  let (data, blocks) := blocks.malloc contents
  (⟨some data, contents.length, true, some .free⟩, blocks)

-- Buffer(size_t) and create
def create (blocks : Blocks) (length : Nat) : Buffer × Blocks :=
  allocate blocks (List.replicate length (some 0))

-- copy(const char*, size_t)
def copy_data (blocks : Blocks) (data : Option Address) (length : Nat) :
    Option (Buffer × Blocks) := do
  let bytes ← blocks.read data length
  return allocate blocks bytes

-- Buffer(const Buffer&) and copy(const Buffer&)
def copy (blocks : Blocks) (b : Buffer) : Option (Buffer × Blocks) :=
  copy_data blocks b.data b.length

-- What Buffer(Buffer&&) leaves of its argument.
def movedFrom (b : Buffer) : Buffer := { b with owns_data := false }

-- What reset(Buffer&&) leaves of its argument.
def resetFrom (b : Buffer) : Buffer :=
  { b with data := none, owns_data := false, free_function := none }

-- ~Buffer()
def destroy (blocks : Blocks) (b : Buffer) : Option Blocks :=
  match b.data with
  | some data =>
      if b.owns_data then do
        let free_function ← b.free_function
        blocks.call free_function data
      else some blocks
  | none => some blocks

-- What reset(Buffer&&) does with the data that it finds.
def discard (blocks : Blocks) (b : Buffer) : Option Blocks :=
  match b.data, b.owns_data, b.free_function with
  | some data, true, some free_function => blocks.call free_function data
  | _, _, _ => some blocks

def resize (blocks : Blocks) (b : Buffer) (capacity : Nat) : Option (Buffer × Blocks) :=
  if b.owns_data = false then do
    let bytes ← blocks.read b.data (min b.length capacity)
    let (ndata, blocks) :=
      blocks.malloc (bytes ++ List.replicate (capacity - b.length) (some 0))
    return ({ b with data := some ndata, length := capacity, owns_data := true }, blocks)
  else do
    let (data, blocks) ← blocks.realloc b.data capacity
    return ({ b with data, length := capacity }, blocks)

end Buffer

-- The memory and the objects. An object keeps its number; the ones that are gone are `none`.
structure State where
  blocks : Blocks
  buffers : List (Option Buffer)

namespace State

variable (s : State)

def start : State := ⟨[], []⟩

def buffer (i : Nat) : Option Buffer := s.buffers[i]?.join

def add (made : Buffer × Blocks) : State := ⟨made.2, s.buffers ++ [some made.1]⟩

def put (i : Nat) (made : Buffer × Blocks) : State := ⟨made.2, s.buffers.set i (some made.1)⟩

end State

inductive Op
  -- memory that the program has from elsewhere
  | memory (block : Block)
  | default
  | from_pointer (data : Option Address) (length : Nat)
  | take_ownership (data : Option Address) (length : Nat) (ff : Option FreeFunction)
  | create (length : Nat)
  | copy_data (data : Option Address) (length : Nat)
  | copy (i : Nat)
  | move (i : Nat)
  | resize (i : Nat) (capacity : Nat)
  | reset (i source : Nat)
  | destroy (i : Nat)

-- Ownership can be taken of memory that is there.
def Takeable (blocks : Blocks) (data : Option Address) : Prop :=
  ∀ address ∈ data, (blocks.starting address).isSome

instance (blocks : Blocks) (data : Option Address) : Decidable (Takeable blocks data) := by
  unfold Takeable
  infer_instance

def State.step (s : State) : Op → Option State
  | .memory block => some { s with blocks := s.blocks ++ [some block] }
  | .default => some (s.add (.default, s.blocks))
  | .from_pointer data length => some (s.add (.from_pointer data length, s.blocks))
  | .take_ownership data length ff =>
      if Takeable s.blocks data then some (s.add (.take_ownership data length ff, s.blocks))
      else none
  | .create length => some (s.add (Buffer.create s.blocks length))
  | .copy_data data length => do
      let made ← Buffer.copy_data s.blocks data length
      return s.add made
  | .copy i => do
      let b ← s.buffer i
      let made ← b.copy s.blocks
      return s.add made
  | .move i => do
      let b ← s.buffer i
      return (s.put i (b.movedFrom, s.blocks)).add (b, s.blocks)
  | .resize i capacity => do
      let b ← s.buffer i
      let made ← b.resize s.blocks capacity
      return s.put i made
  | .reset i source => do
      let b ← s.buffer i
      let blocks ← b.discard s.blocks
      let o ← s.buffer source
      return (s.put i (o, blocks)).put source (o.resetFrom, blocks)
  | .destroy i => do
      let b ← s.buffer i
      let blocks ← b.destroy s.blocks
      return ⟨blocks, s.buffers.set i none⟩

-- The data that a buffer frees when it goes.
def Buffer.owned (b : Buffer) : Option Address := if b.owns_data then b.data else none

def State.owner (s : State) (i : Nat) : Option Address := s.buffer i >>= Buffer.owned

-- What is owned can be freed, and is owned once.
structure State.Owned (s : State) : Prop where
  freeable : ∀ i b, s.buffer i = some b → b.owned.isSome → b.free_function.isSome
  exclusive : Exclusive s.owner

-- The bytes that both sizes have room for are as they were, and the others are zero.
def Resized (s u : State) (i capacity : Nat) (b : Buffer) : Prop :=
  ∃ b' bytes, u.buffer i = some b' ∧ b'.length = capacity ∧
    s.blocks.read b.data (min b.length capacity) = some bytes ∧
    u.blocks.read b'.data capacity =
      some (bytes ++ List.replicate (capacity - b.length) (some 0))

-- What is asked of a call: where it leads, and for resize also that it leads anywhere.
def Correct (s : State) (op : Op) : Prop :=
  (∀ u, s.step op = some u → u.Owned) ∧
    ∀ i capacity b, op = .resize i capacity → s.buffer i = some b →
      ∃ u, s.step op = some u ∧ Resized s u i capacity b

-- Where a buffer can be resized: it has a function that frees the memory it will own, and its
-- bytes are there. If it owns them, they come from malloc, with zeros up to the new size.
def CanResize (s : State) (b : Buffer) (capacity : Nat) : Prop :=
  b.free_function.isSome ∧
    if b.owns_data then
      (∀ address ∈ b.data, ∃ block, s.blocks.starting address = some block ∧ block.freed_by = .free) ∧
        ∃ bytes, s.blocks.read b.data (min b.length capacity) = some bytes ∧
          s.blocks.read b.data capacity =
            some (bytes ++ List.replicate (capacity - b.length) (some 0))
    else ∃ bytes, s.blocks.read b.data (min b.length capacity) = some bytes

def Allowed (s : State) : Op → Prop
  | .take_ownership data _ ff => Takeable s.blocks data → ∀ address ∈ data,
      ff.isSome ∧ ∀ i, s.owner i ≠ some address
  | .resize i capacity => ∀ b ∈ s.buffer i, CanResize s b capacity
  | _ => True

end RoboCrisp.Ownership
