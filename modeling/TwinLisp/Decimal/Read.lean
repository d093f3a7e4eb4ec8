import TwinLisp.Number.Double
import TwinLisp.Text.Digits

/-!
# Reading decimal numbers

A decimal number is an optional sign, digits with at most one point among them, and an optional
exponent. At least one digit is needed before the exponent, on either side of the point, and at
least one in it. The result is the float nearest to the number written, an infinity beyond the
largest and a zero below the smallest. The words `inf`, `infinity` and `nan` are numbers too, in
either case.

## Main definitions

* `splitNumber?` cuts a text into mantissa digits, digits after the point, and exponent.
* `nearest` rounds `digits · 10 ^ exponent` to a float.
* `read?` reads a whole text.
-/

namespace TwinLisp.Decimal

open TwinLisp.Text

/-- The characters of an exponent after its letter: an optional sign and digits. -/
def readExponent? : List Char → Option Int
  | '-' :: cs => (readNat? 10 cs).map fun n => -(n : Int)
  | '+' :: cs => (readNat? 10 cs).map fun n => (n : Int)
  | cs => (readNat? 10 cs).map fun n => (n : Int)

/-- An unsigned number as its digits before and after the point and its exponent. -/
def splitNumber? (cs : List Char) : Option (List Char × List Char × Int) :=
  let whole := cs.takeWhile isAsciiDigit
  let rest := cs.dropWhile isAsciiDigit
  let (fraction, rest) :=
    match rest with
    | '.' :: more => (more.takeWhile isAsciiDigit, more.dropWhile isAsciiDigit)
    | _ => ([], rest)
  if whole.isEmpty && fraction.isEmpty then none
  else
    match rest with
    | [] => some (whole, fraction, 0)
    | c :: more =>
      if c == 'e' || c == 'E' then (readExponent? more).map fun e => (whole, fraction, e)
      else none

/-- The float nearest to `digits · 10 ^ exponent`. Numbers outside the range of floats are settled by
the position of their leading digit, so that no power of ten gets out of hand. -/
def nearest (digits : Nat) (exponent : Int) : Float :=
  if digits == 0 then 0.0
  else
    let leading := exponent + (Nat.toDigits 10 digits).length
    if leading > 400 then 1.0 / 0.0
    else if leading < -400 then 0.0
    else if 0 ≤ exponent then Float.ofScientific digits false exponent.toNat
    else Float.ofScientific digits true (-exponent).toNat

/-- The unsigned number written by `cs`. -/
def readUnsigned? (cs : List Char) : Option Double :=
  let word := String.ofList (cs.map Char.toLower)
  if word == "inf" || word == "infinity" then some Double.infinity
  else if word == "nan" then some (.notANumber false)
  else
    match splitNumber? cs with
    | none => none
    | some (whole, fraction, e) =>
      (readNat? 10 (whole ++ fraction)).map fun digits =>
        .number (nearest digits (e - fraction.length))

/-- The number written by `cs`, with an optional sign. -/
def read? : List Char → Option Double
  | '-' :: cs => (readUnsigned? cs).map Double.neg
  | '+' :: cs => readUnsigned? cs
  | cs => readUnsigned? cs

end TwinLisp.Decimal
