import TwinLisp.Decimal.Shortest

/-!
# Written floats

How a float is written. There are two ways. The *plain* text is the shortest decimal that reads
back, always positional, without an exponent however long that gets, and without a point where the
number is whole. The *literal* text is what the language's reader takes back as the same float: a
whole number below `10 ^ 16` is written exactly and keeps one decimal place, so that it is not
mistaken for an integer, and the three values that are no numbers are written as tagged words.

## Main definitions

* `Scaled.positional` lays digits out around the decimal point.
* `plain` and `literal` are the two texts of a float.
-/

namespace TwinLisp.Decimal

/-- The text of `digits · 10 ^ exponent` in positional notation. -/
def Scaled.positional (d : Scaled) : String :=
  let text := (Nat.toDigits 10 d.digits)
  if 0 ≤ d.exponent then
    String.ofList (text ++ List.replicate d.exponent.toNat '0')
  else
    let places := (-d.exponent).toNat
    if places < text.length then
      let whole := text.length - places
      String.ofList (text.take whole ++ '.' :: text.drop whole)
    else
      String.ofList ('0' :: '.' :: (List.replicate (places - text.length) '0' ++ text))

/-- The whole number that the parts stand for, if they stand for one. -/
def wholeMagnitude? (p : Double.Parts) : Option Nat :=
  if 0 ≤ p.exponent then some (p.mantissa * Nat.pow 2 p.exponent.toNat)
  else
    let unit := Nat.pow 2 (-p.exponent).toNat
    if p.mantissa % unit == 0 then some (p.mantissa / unit) else none

/-- The shortest positional text of a finite magnitude. -/
def magnitudeText (p : Double.Parts) : String :=
  if p.mantissa == 0 then "0" else (shortest p).positional

/-- `text` with a minus sign if `negative`. -/
def signed (negative : Bool) (text : String) : String :=
  if negative then "-" ++ text else text

/-- The plain text of a float. -/
def plain : Double → String
  | .notANumber .. => "NaN"
  | .number x =>
    let p := Double.parts x
    if Double.isFinite x then signed p.negative (magnitudeText p) else signed p.negative "inf"

/-- The least whole magnitude that is written without a decimal place. -/
def placeLimit : Nat := Nat.pow 10 16

/-- The literal text of a float, which reads back as the same float. -/
def literal : Double → String
  | .notANumber .. => "##NaN"
  | .number x =>
    let p := Double.parts x
    if Double.isFinite x then
      match wholeMagnitude? p with
      | some n =>
        if n < placeLimit then signed p.negative (toString n ++ ".0")
        else signed p.negative (magnitudeText p)
      | none => signed p.negative (magnitudeText p)
    else if p.negative then "##-Inf"
    else "##Inf"

end TwinLisp.Decimal
