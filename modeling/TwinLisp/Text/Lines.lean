/-!
# Lines of a text

A text is a sequence of lines, each ended by a line feed except perhaps the last. A carriage return
before the line feed belongs to the end of the line. What follows the last line feed is a line only if
there is something.
-/

namespace TwinLisp.Text

/-- A reversed line without the carriage return at its end. -/
def dropReturn : List Char → List Char
  | '\r' :: cs => cs
  | cs => cs

/-- The lines of a text whose first line continues what was read before, in reverse. -/
def linesFrom (read : List Char) : List Char → List (List Char)
  | [] => if read.isEmpty then [] else [read.reverse]
  | c :: cs =>
    if c == '\n' then (dropReturn read).reverse :: linesFrom [] cs else linesFrom (c :: read) cs

/-- The lines of a text. -/
def lines (source : String) : List String := (linesFrom [] source.toList).map String.ofList

end TwinLisp.Text
