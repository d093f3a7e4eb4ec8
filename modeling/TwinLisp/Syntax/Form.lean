import TwinLisp.Syntax.Token
import TwinLisp.Text.Quoted

/-!
# Forms

A form is a piece of code: a leaf or a bracketed group of forms, with the location it was read from.
The items of a map alternate between keys and values. A leaf may also be the handle of an object that
a macro put into its expansion; such a leaf has no spelling that could be read back.

Code that no reader made has the unknown location. Macro expansion builds new forms and keeps the
locations of the parts that it passes through.

## Main definitions

* `Form.text` is the written form.
* `Form.headSymbol?` is the name that decides how a list is evaluated.
* `Form.height` bounds every recursion over a form's structure.
* `Form.walk` lists all nodes in the order in which they are written.
-/

namespace TwinLisp

/-- A form without parts. -/
inductive Leaf where
  | nil
  | bool (b : Bool)
  | int (n : Int64)
  | float (x : Double)
  | char (c : Char)
  | str (s : String)
  | symbol (name : String)
  | keyword (name : String)
  /-- An object of the running session, by its handle. -/
  | object (handle : Nat)
  deriving DecidableEq

namespace Leaf

/-- The name of the kind of leaf. -/
def kindName : Leaf → String
  | .nil => "nil"
  | .bool _ => "boolean"
  | .int _ => "integer"
  | .float _ => "float"
  | .char _ => "character"
  | .str _ => "string"
  | .symbol _ => "symbol"
  | .keyword _ => "keyword"
  | .object _ => "object"

/-- The written leaf. -/
def text : Leaf → String
  | .nil => "nil"
  | .bool b => toString b
  | .int n => toString n.toInt
  | .float x => Decimal.literal x
  | .char c => Text.quoteChar c
  | .str s => Text.quoteString s
  | .symbol name => name
  | .keyword name => ":" ++ name
  | .object handle => s!"#<object {handle}>"

end Leaf

/-- The name of a kind of group. -/
def Bracket.kindName : Bracket → String
  | .list => "list"
  | .vector => "vector"
  | .map => "map"
  | .set => "set"

/-- A piece of code with its location. -/
inductive Form where
  /-- A form without parts. -/
  | leaf (l : Leaf) (location : Location)
  /-- A bracketed form. -/
  | group (b : Bracket) (items : List Form) (location : Location)

instance : Inhabited Form := ⟨.leaf .nil .unknown⟩

namespace Form

/-! ### Building and taking apart -/

/-- A symbol. -/
@[match_pattern] abbrev symbol (name : String) (location : Location) : Form :=
  .leaf (.symbol name) location

/-- A list. -/
@[match_pattern] abbrev list (items : List Form) (location : Location) : Form :=
  .group .list items location

/-- A vector. -/
@[match_pattern] abbrev vector (items : List Form) (location : Location) : Form :=
  .group .vector items location

/-- A list headed by a symbol, both at the same location. -/
def call (name : String) (args : List Form) (location : Location) : Form :=
  .list (.symbol name location :: args) location

/-- Where the form was read. -/
def location : Form → Location
  | .leaf _ l => l
  | .group _ _ l => l

/-- The form moved to another location; its parts stay where they are. -/
def withLocation (location : Location) : Form → Form
  | .leaf l _ => .leaf l location
  | .group b items _ => .group b items location

/-- The parts of the form. -/
def items : Form → List Form
  | .leaf _ _ => []
  | .group _ items _ => items

/-- The name of the kind of form. -/
def kindName : Form → String
  | .leaf l _ => l.kindName
  | .group b _ _ => b.kindName

/-- The name of a symbol. -/
def symbolName? : Form → Option String
  | .leaf (.symbol name) _ => some name
  | _ => none

/-- The items of a list. -/
def listItems? : Form → Option (List Form)
  | .group .list items _ => some items
  | _ => none

/-- The items of a vector. -/
def vectorItems? : Form → Option (List Form)
  | .group .vector items _ => some items
  | _ => none

/-- Whether the form is a string. -/
def isString : Form → Bool
  | .leaf (.str _) _ => true
  | _ => false

/-- The name at the head of a list. -/
def headSymbol? : Form → Option String
  | .group .list (.leaf (.symbol name) _ :: _) _ => some name
  | _ => none

/-- Whether the form is a list headed by the symbol `name`. -/
def isCallTo (name : String) (f : Form) : Bool := f.headSymbol? == some name

/-! ### The written form -/

mutual

/-- The form as it is written. Map entries are separated by commas. -/
def text : Form → String
  | .leaf l _ => l.text
  | .group .map items _ => Bracket.map.opening ++ entryTexts items ++ Bracket.map.closer.text
  | .group b items _ => b.opening ++ itemTexts items ++ b.closer.text

/-- Items separated by blanks. -/
def itemTexts : List Form → String
  | [] => ""
  | [f] => text f
  | f :: fs => text f ++ " " ++ itemTexts fs

/-- Alternating keys and values, the entries separated by commas. -/
def entryTexts : List Form → String
  | [] => ""
  | [k] => text k
  | [k, v] => text k ++ " " ++ text v
  | k :: v :: rest => text k ++ " " ++ text v ++ ", " ++ entryTexts rest

end

/-! ### Structure -/

mutual

/-- The number of nested levels; one for a leaf. -/
def height : Form → Nat
  | .leaf _ _ => 1
  | .group _ items _ => heights items + 1

/-- The greatest height among some forms; zero if there are none. -/
def heights : List Form → Nat
  | [] => 0
  | f :: fs => max (height f) (heights fs)

end

mutual

/-- Every node of the form with its depth below `depth`, a group before its parts. -/
def walk (depth : Nat) : Form → List (Nat × Form)
  | .leaf l at' => [(depth, .leaf l at')]
  | .group b items at' => (depth, .group b items at') :: walkAll (depth + 1) items

/-- Every node of some forms in order. -/
def walkAll (depth : Nat) : List Form → List (Nat × Form)
  | [] => []
  | f :: fs => walk depth f ++ walkAll depth fs

end

mutual

/-- The handles of the objects that the form mentions. -/
def handles : Form → List Nat
  | .leaf (.object h) _ => [h]
  | .leaf _ _ => []
  | .group _ items _ => handlesOf items

/-- The handles of the objects that some forms mention. -/
def handlesOf : List Form → List Nat
  | [] => []
  | f :: fs => handles f ++ handlesOf fs

end

theorem height_pos (f : Form) : 0 < f.height := by
  cases f <;> simp [height]

theorem height_le_heights {f : Form} {fs : List Form} (h : f ∈ fs) : f.height ≤ heights fs := by
  induction fs with
  | nil => simp at h
  | cons g gs ih =>
    rcases List.mem_cons.1 h with rfl | h
    · simp only [heights]; omega
    · have := ih h
      simp only [heights]; omega

/-- A part is less high than the whole. -/
theorem height_lt_of_mem {b : Bracket} {f : Form} {fs : List Form} {l : Location} (h : f ∈ fs) :
    f.height < (Form.group b fs l).height := by
  have := height_le_heights h
  simp only [height]; omega

end Form

end TwinLisp
