import TwinLisp.Decimal.Text
import TwinLisp.Syntax.Location

/-!
# Tokens

The words of the language, as they stand in source text: brackets, the marks that apply to the form
after them, literals and names. Each knows its text; the contents of strings and characters are
shown as they are, without escapes.
-/

namespace TwinLisp

/-- The shapes of bracketed forms. A map's items alternate between keys and values. -/
inductive Bracket where
  | list
  | vector
  | map
  | set
  deriving DecidableEq, Repr

/-- The characters that close a bracketed form. -/
inductive Closer where
  | paren
  | square
  | brace
  deriving DecidableEq

/-- The closing character. -/
def Closer.text : Closer → String
  | .paren => ")"
  | .square => "]"
  | .brace => "\x7d"

/-- The closing character of a bracketed form. -/
def Bracket.closer : Bracket → Closer
  | .list => .paren
  | .vector => .square
  | .map => .brace
  | .set => .brace

/-- The characters that open a bracketed form. -/
def Bracket.opening : Bracket → String
  | .list => "("
  | .vector => "["
  | .map => "\x7b"
  | .set => "#\x7b"

/-- A mark that applies to the form after it. -/
inductive Mark where
  | quote
  | template
  | unquote
  | splice
  | deref
  deriving DecidableEq

/-- The mark as written. -/
def Mark.text : Mark → String
  | .quote => "'"
  | .template => "\x60"
  | .unquote => "~"
  | .splice => "~@"
  | .deref => "@"

/-- The name at the head of the list that a marked form is read as. -/
def Mark.name : Mark → String
  | .quote => "quote"
  | .template => "syntax-quote"
  | .unquote => "unquote"
  | .splice => "unquote-splicing"
  | .deref => "deref"

/-- A token. -/
inductive Token where
  /-- An opening bracket. -/
  | opening (b : Bracket)
  /-- The opening of an anonymous function. -/
  | openFunction
  /-- A closing bracket. -/
  | closing (c : Closer)
  /-- A mark on the next form. -/
  | mark (m : Mark)
  /-- The mark that drops the next form. -/
  | discard
  | nil
  | bool (b : Bool)
  | int (n : Int64)
  | float (x : Double)
  | char (c : Char)
  | str (s : String)
  | symbol (name : String)
  | keyword (name : String)
  /-- The end of the text. -/
  | endOfInput
  deriving DecidableEq

/-- The text of a token. -/
def Token.text : Token → String
  | .opening b => b.opening
  | .openFunction => "#("
  | .closing c => c.text
  | .mark m => m.text
  | .discard => "#_"
  | .nil => "nil"
  | .bool b => toString b
  | .int n => toString n.toInt
  | .float x => Decimal.plain x
  | .char c => String.ofList ['\\', c]
  | .str s => "\"" ++ s ++ "\""
  | .symbol name => name
  | .keyword name => ":" ++ name
  | .endOfInput => "end of input"

/-- A token and the location of its first character. -/
structure Located where
  /-- The token. -/
  token : Token
  /-- Where it starts. -/
  location : Location
  deriving DecidableEq

end TwinLisp
