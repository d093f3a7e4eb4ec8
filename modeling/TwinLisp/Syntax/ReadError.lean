import TwinLisp.Syntax.Location

/-!
# Reading failures

Everything that can be wrong with a source text before it is code. A failure is a cause and the
location where it was noticed: for a fault inside a token that is just after the last character
consumed, for an unclosed form it is where the form was opened.

The wording of every cause is in `ReadError.Cause.message` alone.
-/

namespace TwinLisp

/-- The deepest nesting of bracketed forms that the reader accepts. -/
def maxNesting : Nat := 512

namespace ReadError

/-- What is wrong with the text. -/
inductive Cause where
  /-- No token starts with this character. -/
  | unexpectedCharacter (c : Char)
  /-- No token starts with a hash mark and this character. -/
  | unknownDispatch (c : Char)
  /-- The text ends after a hash mark. -/
  | endAfterDispatch
  /-- Two hash marks are followed by a word that names no special number. -/
  | unknownSpecialValue (name : String)
  /-- A string has a backslash before a character that needs none. -/
  | unknownEscape (c : Char)
  /-- The text ends after a backslash in a string. -/
  | unterminatedEscape
  /-- The text ends inside a string. -/
  | unterminatedString
  /-- One of the four digits of a code point is not hexadecimal. -/
  | invalidHexDigit (c : Char)
  /-- The text ends inside the four digits of a code point. -/
  | unterminatedCodePoint
  /-- Four digits name no character. -/
  | invalidCodePoint (n : Nat)
  /-- The text ends after the backslash of a character literal. -/
  | missingCharacter
  /-- A character literal looks like a code point but its digits are not hexadecimal. -/
  | invalidCharacterCode (name : String)
  /-- A character literal is a word that names no character. -/
  | unknownCharacterName (name : String)
  /-- A colon is not followed by a name. -/
  | missingKeywordName
  /-- A token that starts with a digit is not a number. -/
  | invalidNumber (text : String)
  /-- An integer literal does not fit sixty-four bits. -/
  | integerOutOfRange (text : String)
  /-- A closing bracket stands where a form should. -/
  | unexpectedToken (text : String)
  /-- The text ends where a form should stand. -/
  | unexpectedEnd
  /-- Brackets are nested too deeply. -/
  | nestedTooDeeply
  /-- A form is not closed by the given bracket before the text ends. -/
  | unterminatedForm (close : String)
  /-- A map literal has a key without a value. -/
  | oddMap
  /-- The text ends after a reader macro that applies to the next form. -/
  | missingForm (name : String)
  deriving DecidableEq

/-- The wording of a cause. -/
def Cause.message : Cause → String
  | .unexpectedCharacter c => s!"Unexpected character: '{c}'"
  | .unknownDispatch c => s!"Unknown dispatch macro: #{c}"
  | .endAfterDispatch => "Unexpected end of input after #"
  | .unknownSpecialValue name => s!"Unknown special value: ##{name}"
  | .unknownEscape c => s!"Unknown escape sequence: \\{c}"
  | .unterminatedEscape => "Unterminated string escape"
  | .unterminatedString => "Unterminated string"
  | .invalidHexDigit c => s!"Invalid hex digit in unicode escape: {c}"
  | .unterminatedCodePoint => "Unterminated unicode escape"
  | .invalidCodePoint n => s!"Invalid unicode code point: {n}"
  | .missingCharacter => "Expected character after \\"
  | .invalidCharacterCode name => s!"Invalid unicode escape: \\{name}"
  | .unknownCharacterName name => s!"Unknown character name: \\{name}"
  | .missingKeywordName => "Expected keyword name after :"
  | .invalidNumber text => s!"Invalid number: {text}"
  | .integerOutOfRange text => s!"Integer literal out of range: {text}"
  | .unexpectedToken text => s!"Unexpected '{text}'"
  | .unexpectedEnd => "Unexpected end of input"
  | .nestedTooDeeply => s!"Forms nested deeper than {maxNesting}"
  | .unterminatedForm close => s!"Unterminated form; expected '{close}'"
  | .oddMap => "Map literal must contain an even number of forms"
  | .missingForm name => s!"Expected a form after {name}"

end ReadError

/-- A failure to read a source text. -/
structure ReadError where
  /-- What is wrong. -/
  cause : ReadError.Cause
  /-- Where it was noticed. -/
  location : Location
  deriving DecidableEq

namespace ReadError

/-- The wording of the failure, without its location. -/
def message (e : ReadError) : String := e.cause.message

/-- The failure as a sentence that names its location. -/
def text (e : ReadError) : String :=
  s!"{e.message} at line {e.location.line}, column {e.location.column}"

end ReadError

end TwinLisp
