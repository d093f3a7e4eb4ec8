import TwinLisp.Heap.Object

/-!
# The heap

Objects live in numbered slots. Each slot counts how often it has been freed, and an address names a
slot together with that count, so that an address which outlives its object resolves to nothing
instead of to the next object in the slot. Freed slots are used again, the last one freed first.

Beside the objects the heap keeps the table of values that forms mention by handle. Handles are
never used again either.

The heap holds a limited number of objects. It never collects on its own account.

## Main definitions

* `Heap.get?` resolves an address.
* `Heap.alloc?` puts an object on the heap, if there is room, and `Heap.set` replaces one.
* `Heap.embed` registers a value under a new handle.
* `Heap.openEmbedding` and `Heap.closeEmbedding` bracket the time during which new handles count as
  in use.
-/

namespace TwinLisp

/-- A place for an object. -/
structure Slot where
  /-- How often the slot has been freed. -/
  generation : Nat
  /-- The object, unless the slot is free. -/
  object : Option Object

/-- Counts over the life of a heap. -/
structure HeapStats where
  /-- How many objects have been allocated. -/
  allocated : Nat
  /-- How many objects have been reclaimed. -/
  freed : Nat
  /-- How many objects are there. -/
  live : Nat
  /-- How many collections have been made. -/
  collections : Nat
  deriving DecidableEq

/-- A heap. -/
structure Heap where
  /-- All slots. -/
  slots : Array Slot
  /-- The free slots, the next one to use first. -/
  free : List Nat
  /-- How many objects there may be; any number if `none`. -/
  capacity : Option Nat
  /-- Allocations since the last collection. -/
  sinceCollection : Nat
  /-- Counts over the life of the heap. -/
  stats : HeapStats
  /-- The values that forms mention, by handle. -/
  embedded : Std.TreeMap Nat Value
  /-- The next handle. -/
  nextHandle : Nat
  /-- While set, handles from this one on count as in use. -/
  floor : Option Nat

namespace Heap

/-- A heap without objects. -/
def empty (capacity : Option Nat) : Heap :=
  { slots := #[], free := [], capacity, sinceCollection := 0, stats := ⟨0, 0, 0, 0⟩, embedded := ∅,
    nextHandle := 0, floor := none }

/-- The object with the given address, while it is there. -/
def get? (h : Heap) (a : Address) : Option Object :=
  match h.slots[a.index]? with
  | some s => if s.generation == a.generation then s.object else none
  | none => none

/-- Whether the address resolves. -/
def isLive (h : Heap) (a : Address) : Bool := (h.get? a).isSome

/-- The object that a value refers to, if it is of that kind. -/
def objectOf? (h : Heap) (v : Value) : Option Object := v.address?.bind h.get?

/-- Whether there is no room for another object. -/
def isFull (h : Heap) : Bool := h.capacity.any (· ≤ h.stats.live)

/-- The heap with one more allocation counted. -/
def countAllocation (h : Heap) : Heap :=
  { h with
    sinceCollection := h.sinceCollection + 1
    stats := { h.stats with allocated := h.stats.allocated + 1, live := h.stats.live + 1 } }

/-- Put an object on the heap, whether or not there is room. -/
def place (h : Heap) (o : Object) : Heap × Address :=
  let h := h.countAllocation
  match h.free with
  | i :: free =>
    let generation := (h.slots[i]?.map Slot.generation).getD 0
    ({ h with slots := h.slots.setIfInBounds i ⟨generation, some o⟩, free }, ⟨i, generation⟩)
  | [] =>
    let i := h.slots.size
    ({ h with slots := h.slots.push ⟨0, some o⟩ }, ⟨i, 0⟩)

/-- Put an object on the heap if there is room. -/
def alloc? (h : Heap) (o : Object) : Option (Heap × Address) :=
  if h.isFull then none else some (h.place o)

/-- Replace the object with the given address, if it is there. -/
def set (h : Heap) (a : Address) (o : Object) : Heap :=
  { h with
    slots := h.slots.modify a.index fun s =>
      if s.generation == a.generation && s.object.isSome then { s with object := some o } else s }

/-! ### Embedded values -/

/-- Register a value for use in forms. -/
def embed (h : Heap) (v : Value) : Heap × Nat :=
  ({ h with embedded := h.embedded.insert h.nextHandle v, nextHandle := h.nextHandle + 1 },
    h.nextHandle)

/-- The value behind a handle. -/
def embedded? (h : Heap) (handle : Nat) : Option Value := h.embedded[handle]?

/-- From now on, new handles count as in use. -/
def openEmbedding (h : Heap) : Heap := { h with floor := some h.nextHandle }

/-- Handles no longer count as in use on their own account. -/
def closeEmbedding (h : Heap) : Heap := { h with floor := none }

end Heap

end TwinLisp
