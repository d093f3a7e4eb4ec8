import TwinLisp.Decimal.Text
import TwinLisp.Session.Basic
import TwinLisp.Text.Quoted

/-!
# Printed values

How values are written. The *readable* text of a value made of data can be read back; the *display*
text shows strings and characters as they are. What cannot be read back is written in angle brackets.

Atoms may contain themselves, so whatever lies deeper than a fixed number of levels is left out.

## Main definitions

* `Session.text` writes a value, and `Eval.readable` and `Eval.display` are its two uses.
-/

namespace TwinLisp

/-- How many levels are written: the value itself and so many below it. -/
def printDepth : Nat := 64

/-- Texts with a blank between any two. -/
def spaced (texts : List String) : String := " ".intercalate texts

namespace Session

/-- The written function. -/
def functionText (s : Session) (f : Function) : String :=
  let label :=
    match f.isMacro, f.body with
    | true, _ => "macro"
    | false, .native _ => "native-fn"
    | false, _ => "fn"
  match f.name with
  | some name => "#<" ++ label ++ " " ++ s.symbols.name name ++ ">"
  | none => "#<" ++ label ++ ">"

/-- The written object, where `inner` writes its parts and `quoted` those of atoms. -/
def objectText (s : Session) (readably : Bool) (inner quoted : Value → String) : Object → String
  | .str t => if readably then Text.quoteString t else t
  | .list items _ => "(" ++ spaced (items.map inner) ++ ")"
  | .vector items _ => "[" ++ spaced (items.map inner) ++ "]"
  | .set members => "#\x7b" ++ spaced (members.toList.map inner) ++ "\x7d"
  | .map m =>
    "\x7b" ++ ", ".intercalate (m.toList.map fun e => inner e.1 ++ " " ++ inner e.2) ++ "\x7d"
  | .function f => s.functionText f
  | .atom v => "#<atom " ++ quoted v ++ ">"
  | .host typeName => "#<host " ++ typeName ++ ">"

/-- The written value, down to so many levels. -/
def textWithin (s : Session) : Nat → Bool → Value → String
  | 0, _, _ => "..."
  | levels + 1, readably, v =>
    match v with
    | .nil => "nil"
    | .bool b => toString b
    | .int n => toString n.toInt
    | .float x => Decimal.literal x
    | .char c => if readably then Text.quoteChar c else c.toString
    | .symbol name => s.symbols.name name
    | .keyword name => ":" ++ s.symbols.name name
    | .ref _ a =>
      match s.heap.get? a with
      | some o =>
        s.objectText readably (textWithin s levels readably) (textWithin s levels true) o
      | none => "#<freed>"

/-- The written value. -/
def text (s : Session) (readably : Bool) (v : Value) : String :=
  s.textWithin (printDepth + 1) readably v

end Session

namespace Eval

/-- The text of a value that can be read back, as far as there is one. -/
def readable (v : Value) : Eval String := return (← get).text true v

/-- The text of a value with strings and characters as they are. -/
def display (v : Value) : Eval String := return (← get).text false v

end Eval

end TwinLisp
