import TwinLisp.Decimal.Read
import TwinLisp.Syntax.ReadError
import TwinLisp.Syntax.Token

/-!
# Number and character literals

What a run of characters means once the scanner has cut it out of the text.

A number is hexadecimal after `0x`, a float if it has a point or an exponent letter, and a decimal
integer otherwise. Integers are sixty-four bits wide. The digits are taken from the left, so of two
faults the one further left is reported: a character that is no digit makes the literal malformed,
a digit that leaves the range makes it too large. Hexadecimal digits give the magnitude; a minus
sign negates it afterwards, so that the least integer has no hexadecimal spelling.

## Main definitions

* `readInteger` reads decimal digits with a bound on the magnitude.
* `numberToken` reads a whole number literal.
* `characterToken` reads the name after the backslash of a character literal.
-/

namespace TwinLisp.Literal

open TwinLisp.Text

/-- The greatest sixty-four bit integer. -/
def maxInt : Nat := Nat.pow 2 63 - 1

/-- What is wrong with a run of decimal digits. -/
inductive DigitFault where
  /-- A character is not a digit. -/
  | notADigit
  /-- The number is greater than the bound. -/
  | tooLarge
  deriving DecidableEq

/-- The number that the digits `cs` continue after `acc`, which must stay within `bound` at every
digit. -/
def continueInteger (bound acc : Nat) : List Char → Except DigitFault Nat
  | [] => .ok acc
  | c :: cs =>
    match digitValue? 10 c with
    | none => .error .notADigit
    | some d =>
      let next := acc * 10 + d
      if bound < next then .error .tooLarge else continueInteger bound next cs

/-- The number written by the decimal digits `cs`. -/
def readInteger (bound : Nat) : List Char → Except DigitFault Nat
  | [] => .error .notADigit
  | c :: cs => continueInteger bound 0 (c :: cs)

/-- The number written by the hexadecimal digits `cs`, if it is an integer of the language. -/
def readHex? (cs : List Char) : Option Nat := (readNat? 16 cs).filter (· ≤ maxInt)

/-- A literal without its sign, and whether the sign was a minus. -/
def splitSign : List Char → Bool × List Char
  | '-' :: cs => (true, cs)
  | '+' :: cs => (false, cs)
  | cs => (false, cs)

/-- The digits after a hexadecimal marker. -/
def hexDigits? : List Char → Option (List Char)
  | '0' :: 'x' :: cs => some cs
  | '0' :: 'X' :: cs => some cs
  | _ => none

/-- The integer of the given magnitude and sign. -/
def integer (negative : Bool) (n : Nat) : Int64 :=
  if negative then Int64.ofInt (-(n : Int)) else Int64.ofInt n

/-- The token that the number literal `cs` stands for. -/
def numberToken (cs : List Char) : Except ReadError.Cause Token :=
  let (negative, unsigned) := splitSign cs
  let malformed := ReadError.Cause.invalidNumber (String.ofList cs)
  match hexDigits? unsigned with
  | some digits =>
    match readHex? digits with
    | some n => .ok (.int (integer negative n))
    | none => .error malformed
  | none =>
    if unsigned.any fun c => c == '.' || c == 'e' || c == 'E' then
      match Decimal.read? cs with
      | some x => .ok (.float x)
      | none => .error malformed
    else
      match readInteger (if negative then maxInt + 1 else maxInt) unsigned with
      | .ok n => .ok (.int (integer negative n))
      | .error .tooLarge => .error (.integerOutOfRange (String.ofList cs))
      | .error .notADigit => .error malformed

/-- Characters that have names. -/
def characterNames : List (String × Char) :=
  [("newline", '\n'), ("space", ' '), ("tab", '\t'), ("return", '\r'), ("backspace", '\x08'),
    ("formfeed", '\x0c')]

/-- The character with code point `n`, if there is one. -/
def character? (n : Nat) : Option Char := if n.isValidChar then some (Char.ofNat n) else none

/-- The token that the character name `name` stands for: a single letter is itself, `u` with four
more characters is a code point, and the rest must be one of the `characterNames`. -/
def characterToken (name : List Char) : Except ReadError.Cause Token :=
  let text := String.ofList name
  match characterNames.lookup text, name with
  | some c, _ => .ok (.char c)
  | none, [c] => .ok (.char c)
  | none, 'u' :: digits =>
    if digits.length == 4 then
      match readNat? 16 digits with
      | none => .error (.invalidCharacterCode text)
      | some n =>
        match character? n with
        | some c => .ok (.char c)
        | none => .error (.invalidCodePoint n)
    else .error (.unknownCharacterName text)
  | none, _ => .error (.unknownCharacterName text)

end TwinLisp.Literal
