import Mathlib.Data.List.Sort

namespace RoboCrisp.Util

-- The simple array. `data` is the allocated block, `none` being the null pointer;
-- a cell of the block holds a constructed element or raw memory (`none`).
-- An operation that touches memory it has no right to has no result.
structure SArray (α : Type) where
  data : Option (List (Option α))
  size : Nat
  capacity : Nat
deriving DecidableEq

namespace SArray

variable {α : Type}

-- The default constructor.
def empty : SArray α := ⟨none, 0, 0⟩

-- The constructor with an initial capacity.
def alloc (s : Nat) : SArray α :=
  ⟨if s > 0 then some (List.replicate s none) else none, 0, s⟩

def realloc (data : Option (List (Option α))) (capacity : Nat) : List (Option α) :=
  (data.getD []).take capacity ++ List.replicate (capacity - (data.getD []).length) none

def ensure_capacity (array : SArray α) (reqd_capacity : Nat) : SArray α :=
  if array.capacity < reqd_capacity then
    let capacity :=
      if array.capacity > 0 then array.capacity + 2 * (reqd_capacity - array.capacity)
      else reqd_capacity
    { data := some (realloc array.data capacity), size := array.size, capacity := capacity }
  else array

-- Both `push` overloads and `emplace`: the new element is constructed in place.
-- The store goes through `data`, so it fails when that is still null.
def push (array : SArray α) (v : α) : Option (SArray α) :=
  let array := array.ensure_capacity (array.size + 1)
  array.data.map fun cells =>
    { array with data := some (cells.set array.size (some v)), size := array.size + 1 }

-- Destroy the elements, but keep the memory. A null array keeps even its size.
def clear (array : SArray α) : SArray α :=
  match array.data with
  | none => array
  | some cells =>
      { array with
        data := some (List.replicate (min array.size cells.length) none ++ cells.drop array.size)
        size := 0 }

def get (array : SArray α) (n : Nat) : Option α :=
  array.data.bind fun cells => (cells[n]?).join

-- The index `n - 1`. For 0 the subtraction wraps to an index outside of every array.
def indexBefore (n : Nat) : Option Nat := if n = 0 then none else some (n - 1)

def back (array : SArray α) : Option α := indexBefore array.size >>= array.get

-- Replace the element at `n` by its image.
def modify (array : SArray α) (n : Nat) (f : α → α) : Option (SArray α) := do
  let cells ← array.data
  let element ← (cells[n]?).join
  return { array with data := some (cells.set n (some (f element))) }

-- The elements a loop from `begin()` to `end()` visits.
def elems (array : SArray α) : Option (List α) :=
  match array.data with
  | none => if array.size = 0 then some [] else none
  | some cells => if array.size ≤ cells.length then (cells.take array.size).allSome else none

def pushAll (array : SArray α) : List α → Option (SArray α)
  | [] => some array
  | v :: rest => array.push v >>= fun array => pushAll array rest

-- Copy construction. `emplace` takes its argument by value, so that every element
-- goes through its copy constructor twice.
def copy (copyElement : α → Option α) (s : SArray α) : Option (SArray α) := do
  let elements ← s.elems
  let copies ← elements.mapM fun v => copyElement v >>= copyElement
  (alloc s.size).pushAll copies

-- Copy assignment from another array.
def assign (copyElement : α → Option α) (array s : SArray α) : Option (SArray α) := do
  let elements ← s.elems
  let copies ← elements.mapM fun v => copyElement v >>= copyElement
  (array.clear.ensure_capacity s.capacity).pushAll copies

-- Copy assignment from itself: the elements are gone before the loop over them starts.
def assignSelf (array : SArray α) : SArray α := array.clear.ensure_capacity array.capacity

-- What move construction and move assignment leave of their source.
def movedFrom (array : SArray α) : SArray α := { array with data := none }

-- Move assignment from itself: the block is freed and the pointer cleared.
def moveSelf (array : SArray α) : SArray α := { array.clear with data := none }

def sort (le : α → α → Bool) (array : SArray α) : Option (SArray α) := do
  let elements ← array.elems
  return { array with
    data := array.data.map fun cells =>
      (elements.insertionSort fun a b => le a b).map some ++ cells.drop array.size }

-- The array owns all its memory, and its elements are `elements` in order.
def Holds (array : SArray α) (elements : List α) : Prop :=
  array.size = elements.length ∧
    ((array.data = none ∧ array.capacity = 0 ∧ elements = []) ∨
      ∃ spare, array.data = some (elements.map some ++ List.replicate spare none) ∧
        array.capacity = elements.length + spare)

-- The same, or the array was moved out of while it was empty. It has kept its capacity
-- then, and no memory.
def Contains (array : SArray α) (elements : List α) : Prop :=
  array.Holds elements ∨ (elements = [] ∧ array.data = none ∧ array.size = 0)

-- What an array of the program looks like: the block is as long as the capacity says, with raw
-- memory behind the elements, or it was moved out of. Where a block was allocated after that,
-- there is raw memory in place of the elements, too.
def Occurs (array : SArray α) : Prop :=
  array.data = none ∨ ∃ (front : List (Option α)) (spare : Nat),
    array.data = some (front ++ List.replicate spare none) ∧ array.size = front.length ∧
      array.capacity = front.length + spare

-- clear() finds an element wherever it calls a destructor, which has no outcome on raw memory.
def Destructible (array : SArray α) : Prop := array.data ≠ none → array.elems ≠ none

end SArray

end RoboCrisp.Util
