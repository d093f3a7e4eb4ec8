import TwinLisp.Number.Double

/-!
# Values

What evaluation produces. A value is either immediate (nil, a boolean, a number, a character, an
interned name) or a reference to an object on the heap. A reference carries the kind of its object,
so that a value knows its type even after the object has been reclaimed.

## Main definitions

* `Symbol` is an interned name: its position in a session's table of names.
* `Address` names a heap slot and the generation in which the object was put there.
* `Value` and its type names, truth and identity.
-/

namespace TwinLisp

/-- An interned name, by its position in the table of names. -/
structure Symbol where
  /-- The position. -/
  index : Nat
  deriving DecidableEq, Repr, Inhabited

/-- The name of a heap object. A slot that is used again gets a new generation, so an address never
comes to mean another object. -/
structure Address where
  /-- The slot. -/
  index : Nat
  /-- How often the slot had been freed when the object was put there. -/
  generation : Nat
  deriving DecidableEq, Repr, Inhabited

/-- The kinds of heap objects. -/
inductive Kind where
  | str
  | list
  | vector
  | map
  | set
  | function
  | atom
  | host
  deriving DecidableEq

/-- The name of a kind, as messages use it. -/
def Kind.name : Kind → String
  | .str => "string"
  | .list => "list"
  | .vector => "vector"
  | .map => "map"
  | .set => "set"
  | .function => "function"
  | .atom => "atom"
  | .host => "host object"

/-- A value of the language. -/
inductive Value where
  | nil
  | bool (b : Bool)
  | int (n : Int64)
  | float (x : Double)
  | char (c : Char)
  | symbol (s : Symbol)
  | keyword (s : Symbol)
  /-- A reference to an object of the given kind. -/
  | ref (kind : Kind) (address : Address)
  deriving DecidableEq

namespace Value

instance : Inhabited Value := ⟨.nil⟩

/-- Everything but `nil` and `false` counts as true. -/
def isTruthy : Value → Bool
  | .nil => false
  | .bool b => b
  | _ => true

/-- Whether the value is an integer or a float. -/
def isNumber : Value → Bool
  | .int _ => true
  | .float _ => true
  | _ => false

/-- The name of the value's type, as messages use it. -/
def typeName : Value → String
  | .nil => "nil"
  | .bool _ => "boolean"
  | .int _ => "integer"
  | .float _ => "float"
  | .char _ => "character"
  | .symbol _ => "symbol"
  | .keyword _ => "keyword"
  | .ref k _ => k.name

/-- The object that the value refers to. -/
def address? : Value → Option Address
  | .ref _ a => some a
  | _ => none

/-- Whether two values are the same immediate or the same object. Floats are the same if their
representations are. -/
def identical : Value → Value → Bool
  | .nil, .nil => true
  | .bool a, .bool b => a == b
  | .int a, .int b => a == b
  | .float a, .float b => a.identical b
  | .char a, .char b => a == b
  | .symbol a, .symbol b => a == b
  | .keyword a, .keyword b => a == b
  | .ref _ a, .ref _ b => a == b
  | _, _ => false

end Value

end TwinLisp
