import TwinLisp.Fault.Basic
import TwinLisp.Text.Lines

/-!
# Failures in their source

A failure is shown with the line of source text that it is blamed on, and a caret under the column:

    file:2:6: Divide by zero
    2 | (+ 1 (/ 1 0))
      |      ^

The caret is as far to the right as the character above it, so tabs before that character are kept.
A failure that is blamed on no line of the text is shown without one.
-/

namespace TwinLisp

namespace Excerpt

/-- A blank for each of the first `n` characters of a line, and a tab for each tab. -/
def padding (n : Nat) (line : String) : String :=
  String.ofList ((line.toList.take n).map fun c => if c == '\t' then '\t' else ' ')

/-- A line with its number, and a caret under a column. -/
def marked (number column : Nat) (line : String) : String :=
  let number := toString number
  let gutter := String.ofList (List.replicate number.length ' ')
  number ++ " | " ++ line ++ "\n" ++ gutter ++ " | " ++ padding (column - 1) line ++ "^"

end Excerpt

/-- A failure of evaluating `source`, which came from `origin`. -/
def Fault.report (f : Fault) (source origin : String) : String :=
  match f.location.filter Location.isKnown with
  | none => origin ++ ": " ++ f.message
  | some l =>
    let header := origin ++ ":" ++ l.text ++ ": " ++ f.message
    match (Text.lines source)[l.line - 1]? with
    | none => header
    | some line => header ++ "\n" ++ Excerpt.marked l.line l.column line

end TwinLisp
