import TwinLisp.Session.Data
import TwinLisp.Syntax.Form

/-!
# Code as data

Macros receive code as values and return values that are code again. A list or vector made from a
form keeps the form's location, so that code which a macro passes on still points at its source. All
other forms lose their location on the way.

What has no form of its own (a function, an atom, a host object) becomes a leaf that mentions the
object by handle.

## Main definitions

* `Eval.valueOfForm` and `Eval.formOfValue`.
-/

namespace TwinLisp.Eval

/-- The value of a leaf. -/
def valueOfLeaf : Leaf → Eval Value
  | .nil => return .nil
  | .bool b => return .bool b
  | .int n => return .int n
  | .float x => return .float x
  | .char c => return .char c
  | .str s => newString s
  | .symbol name => symbol name
  | .keyword name => keyword name
  | .object handle => embedded handle

/-- The value of a group at `l` with the given items. -/
def valueOfGroup (b : Bracket) (items : List Value) (l : Location) : Eval Value :=
  match b with
  | .list => new (.list items l)
  | .vector => new (.vector items l)
  | .map => newMap (pairUp items)
  | .set => newSet items

mutual

/-- The value that a form stands for, without evaluating it. -/
def valueOfForm : Form → Eval Value
  | .leaf d _ => valueOfLeaf d
  | .group b items l => do
    let vs ← valuesOfForms items
    valueOfGroup b vs l

/-- The values that some forms stand for. -/
def valuesOfForms : List Form → Eval (List Value)
  | [] => return []
  | f :: fs => do
    let v ← valueOfForm f
    let vs ← valuesOfForms fs
    return v :: vs

end

/-- A leaf without a location. -/
def leaf (d : Leaf) : Form := .leaf d .unknown

/-- The form of an object with the given address, where `inner` gives the forms of its parts. A
function, an atom or a host object is mentioned by handle. -/
def formOfObject (inner : Value → Eval Form) (v : Value) : Object → Eval Form
  | .str s => return leaf (.str s)
  | .list items l => return .list (← items.mapM inner) l
  | .vector items l => return .vector (← items.mapM inner) l
  | .map m => do
    let entries ← m.toList.mapM fun e => do
      let k ← inner e.1
      let v ← inner e.2
      return [k, v]
    return .group .map entries.flatten .unknown
  | .set s => return .group .set (← s.toList.mapM inner) .unknown
  | .function _ => return leaf (.object (← embed v))
  | .atom _ => return leaf (.object (← embed v))
  | .host _ => return leaf (.object (← embed v))

/-- The form that a value is, looking through at most `fuel` references in a row. -/
def formWithin : Nat → Value → Eval Form
  | _, .nil => return leaf .nil
  | _, .bool b => return leaf (.bool b)
  | _, .int n => return leaf (.int n)
  | _, .float x => return leaf (.float x)
  | _, .char c => return leaf (.char c)
  | _, .symbol s => return leaf (.symbol (← nameOf s))
  | _, .keyword s => return leaf (.keyword (← nameOf s))
  | _, .ref .function a => return leaf (.object (← embed (.ref .function a)))
  | _, .ref .atom a => return leaf (.object (← embed (.ref .atom a)))
  | _, .ref .host a => return leaf (.object (← embed (.ref .host a)))
  | 0, .ref _ a => defect (.dangling a)
  | fuel + 1, .ref k a => do
    let o ← object a
    formOfObject (formWithin fuel) (.ref k a) o

/-- The form that a value is. -/
def formOfValue (v : Value) : Eval Form := do
  formWithin ((← get).heap.slots.size + 1) v

end TwinLisp.Eval
