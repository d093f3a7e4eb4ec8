import TwinLisp.Heap.Equality
import TwinLisp.Session.Basic

/-!
# Data of a session

Keys and equality of a session's values, and the construction of maps and sets.
-/

namespace TwinLisp.Eval

/-- A result that needs all references to resolve. -/
def resolving {α : Type} : Except Address α → Eval α
  | .ok a => pure a
  | .error a => defect (.dangling a)

/-- The key of a value. -/
def keyOf (v : Value) : Eval Key := do resolving ((← get).heap.key v)

/-- Whether two values are equal. -/
def areEqual (v w : Value) : Eval Bool := do resolving ((← get).heap.equal v w)

/-- A map with entries put into it; of two entries with equal keys the later one stays. -/
def insertEntries (m : OrderedMap) (entries : List (Value × Value)) : Eval OrderedMap :=
  entries.foldlM (fun m e => return m.insert (← keyOf e.1) e) m

/-- A set with members put into it; of two equal ones the earlier one stays. -/
def insertMembers (s : OrderedSet) (members : List Value) : Eval OrderedSet :=
  members.foldlM (fun s v => return s.insertIfNew (← keyOf v) v) s

/-- A new map. -/
def newMap (entries : List (Value × Value)) : Eval Value := do
  new (.map (← insertEntries .empty entries))

/-- A new set. -/
def newSet (members : List Value) : Eval Value := do
  new (.set (← insertMembers .empty members))

/-- A keyword. -/
def keyword (name : String) : Eval Value := return .keyword (← intern name)

/-- A symbol. -/
def symbol (name : String) : Eval Value := return .symbol (← intern name)

end TwinLisp.Eval

namespace TwinLisp

/-- Alternating keys and values in pairs; a key at the end gets `nil`. -/
def pairUp : List Value → List (Value × Value)
  | [] => []
  | [k] => [(k, .nil)]
  | k :: v :: rest => (k, v) :: pairUp rest

end TwinLisp
