import TwinLisp.Text.Character

/-!
# Digits

Reading runs of digits as natural numbers, in any radix up to thirty-six, and the ASCII classes that
number and character literals are cut by.

## Main definitions

* `digitValue?` gives the value of one digit.
* `readNat?` reads a whole run: it refuses the empty run and any character that is not a digit.
-/

namespace TwinLisp.Text

/-- Whether `c` is one of the ten ASCII digits. -/
def isAsciiDigit (c : Char) : Bool := '0' ≤ c && c ≤ '9'

/-- Whether `c` is an ASCII letter or digit. -/
def isAsciiAlphanumeric (c : Char) : Bool := isAsciiLetter c || isAsciiDigit c

/-- The value of `c` as a digit, letters of either case counting on from ten. -/
def digitValue? (radix : Nat) (c : Char) : Option Nat :=
  let value? : Option Nat :=
    if isAsciiDigit c then some (c.toNat - '0'.toNat)
    else if 'a' ≤ c && c ≤ 'z' then some (c.toNat - 'a'.toNat + 10)
    else if 'A' ≤ c && c ≤ 'Z' then some (c.toNat - 'A'.toNat + 10)
    else none
  value?.filter (· < radix)

/-- The number that the digits `cs` continue when `acc` has been read already. -/
def readDigits? (radix : Nat) (acc : Nat) : List Char → Option Nat
  | [] => some acc
  | c :: cs =>
    match digitValue? radix c with
    | some d => readDigits? radix (acc * radix + d) cs
    | none => none

/-- The number written by `cs`, which must be one or more digits and nothing else. -/
def readNat? (radix : Nat) (cs : List Char) : Option Nat :=
  match cs with
  | [] => none
  | _ :: _ => readDigits? radix 0 cs

end TwinLisp.Text
