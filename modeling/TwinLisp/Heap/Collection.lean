import TwinLisp.Heap.Basic

/-!
# Collection

Collection keeps what can be reached from the roots and reclaims all other objects. Objects, scopes
and handles are the nodes of one graph: an object leads to the values it holds, a closure also to its
scope and to the handles that its body mentions, a scope to its values and to the scope around it,
and a handle to the value registered under it.

Marking takes nodes off a list of work, skips those that are marked or do not exist, and marks the
first other one while putting everything it refers to on the list. Every such step marks a node that
exists, so there are no more steps than nodes.

Sweeping frees the slots of all unmarked objects and forgets all unmarked handles.

## Main definitions

* `Heap.references` is the edge relation, and `Heap.hasNode` says which nodes exist.
* `Heap.mark` computes the marked nodes, and `Heap.sweep` frees the rest.
* `Heap.collect` puts the two together.
-/

namespace TwinLisp

/-- A set of nodes. -/
structure Marks where
  /-- Marked objects, by slot. -/
  objects : Array Bool
  /-- Marked scopes. -/
  scopes : Array Bool
  /-- Marked handles. -/
  handles : Std.TreeMap Nat Unit

namespace Marks

/-- The empty set, with room for so many slots and scopes. -/
def none (slots scopes : Nat) : Marks := ⟨Array.replicate slots false, Array.replicate scopes false, ∅⟩

/-- Whether a node is marked. -/
def contains (m : Marks) : Node → Bool
  | .object a => m.objects[a.index]?.getD false
  | .scope i => m.scopes[i]?.getD false
  | .handle h => m.handles.contains h

/-- Mark a node. -/
def insert (m : Marks) : Node → Marks
  | .object a => { m with objects := m.objects.setIfInBounds a.index true }
  | .scope i => { m with scopes := m.scopes.setIfInBounds i true }
  | .handle h => { m with handles := m.handles.insert h () }

end Marks

namespace Heap

/-- Whether a node exists. -/
def hasNode (h : Heap) (scopes : Scopes) : Node → Bool
  | .object a => h.isLive a
  | .scope i => i < scopes.size
  | .handle n => h.embedded.contains n

/-- The nodes that a node leads to. -/
def references (h : Heap) (scopes : Scopes) : Node → List Node
  | .object a => (h.get? a).elim [] Object.references
  | .scope i => (scopes.all[i]?).elim [] Scope.references
  | .handle n => (h.embedded[n]?).elim [] Node.ofValue

/-- How many nodes there are at most. -/
def nodeCount (h : Heap) (scopes : Scopes) : Nat := h.slots.size + scopes.size + h.embedded.size

/-- Work that need not be done: nodes that are marked or do not exist. -/
def isSettled (h : Heap) (scopes : Scopes) (marks : Marks) (n : Node) : Bool :=
  marks.contains n || !h.hasNode scopes n

/-- Mark everything reachable from the nodes `work`, marking at most `fuel` nodes. -/
def markFrom (h : Heap) (scopes : Scopes) : Nat → Marks → List Node → Marks
  | 0, marks, _ => marks
  | fuel + 1, marks, work =>
    match work.dropWhile (h.isSettled scopes marks) with
    | [] => marks
    | n :: rest => markFrom h scopes fuel (marks.insert n) (h.references scopes n ++ rest)

/-- The handles that count as in use. -/
def activeHandles (h : Heap) : List Node :=
  match h.floor with
  | some floor => (h.embedded.keys.filter (floor ≤ ·)).map .handle
  | none => []

/-- The nodes reachable from `roots`. -/
def mark (h : Heap) (scopes : Scopes) (roots : List Node) : Marks :=
  h.markFrom scopes (h.nodeCount scopes) (.none h.slots.size scopes.size) (h.activeHandles ++ roots)

/-- Whether slot `i` holds an object that is not marked. -/
def isGarbage (h : Heap) (marks : Marks) (i : Nat) : Bool :=
  match h.slots[i]? with
  | some s => s.object.isSome && !marks.objects[i]?.getD false
  | none => false

/-- Free all slots with unmarked objects and forget all unmarked handles. The second part of the
result is the number of objects freed. -/
def sweep (h : Heap) (marks : Marks) : Heap × Nat :=
  let garbage := (List.range h.slots.size).filter (h.isGarbage marks)
  let slots := h.slots.mapIdx fun i s =>
    if h.isGarbage marks i then ⟨s.generation + 1, none⟩ else s
  ({ h with
      slots
      free := garbage.reverse ++ h.free
      embedded := h.embedded.filter fun handle _ => marks.handles.contains handle
      sinceCollection := 0
      stats :=
        { h.stats with
          freed := h.stats.freed + garbage.length
          live := h.stats.live - garbage.length
          collections := h.stats.collections + 1 } },
    garbage.length)

/-- Reclaim every object that cannot be reached from `roots`. The second part of the result is the
number of objects reclaimed. -/
def collect (h : Heap) (scopes : Scopes) (roots : List Node) : Heap × Nat :=
  h.sweep (h.mark scopes roots)

end Heap

end TwinLisp
