import TwinLisp.Number.Double

/-!
# The fewest digits that read back

A finite float stands for every real number that rounds to it: an interval around its exact value,
whose ends belong to it exactly when the mantissa is even. `shortest` picks from that interval the
decimal with the fewest digits, and among those with equally few the one nearest to the exact value.

The search is exact. The value and the ends of its interval are natural numbers over a common scale.
For one, two, … seventeen digits the two points of that decimal grid next to the value are tested
against the interval. The first grid with a hit wins: if any point of a grid lies in the interval,
then so does one of the value's two neighbours on it.

## Main definitions

* `Interval.ofParts`: the interval of reals that round to a positive float.
* `Interval.onGrid?`: the better of the two neighbours on one decimal grid.
* `shortest`: the digits and the power of ten of the result.
-/

namespace TwinLisp.Decimal

/-- A decimal number `digits · 10 ^ exponent`. -/
structure Scaled where
  /-- The significant digits, as one natural number. -/
  digits : Nat
  /-- The power of ten that they are multiplied by. -/
  exponent : Int
  deriving DecidableEq, Repr

/-- The reals that round to one positive float: `low` to `high` with the float itself at `value`, all
three in units of `2 ^ exponent`. -/
structure Interval where
  /-- The lower end. -/
  low : Nat
  /-- The float's exact value. -/
  value : Nat
  /-- The upper end. -/
  high : Nat
  /-- The power of two that the three are multiplied by. -/
  exponent : Int
  /-- Whether the ends round to the float as well. -/
  closed : Bool

namespace Interval

/-- The interval of the float `mantissa · 2 ^ exponent`. Its neighbours are half a unit away on
either side, except below a power of two, where the gap is half as wide. -/
def ofParts (p : Double.Parts) : Interval :=
  { low := if p.mantissa == Nat.pow 2 52 && p.exponent > -1074 then 4 * p.mantissa - 1
           else 4 * p.mantissa - 2
    value := 4 * p.mantissa
    high := 4 * p.mantissa + 2
    exponent := p.exponent - 2
    closed := p.mantissa % 2 == 0 }

/-- Numerator factor and denominator that turn units of the interval into units of `10 ^ grid`. -/
def scale (i : Interval) (grid : Int) : Nat × Nat :=
  (Nat.pow 2 i.exponent.toNat * Nat.pow 10 (-grid).toNat,
    Nat.pow 2 (-i.exponent).toNat * Nat.pow 10 grid.toNat)

/-- Whether `point · 10 ^ grid` rounds to the float, given the grid's `scale`. -/
def contains (i : Interval) (scale : Nat × Nat) (point : Nat) : Bool :=
  let at10 := point * scale.2
  let low := i.low * scale.1
  let high := i.high * scale.1
  if i.closed then low ≤ at10 && at10 ≤ high else low < at10 && at10 < high

/-- The multiple of `10 ^ grid` next to the value that rounds to the float, if there is one; of two
the nearer, and of two equally near the greater. -/
def onGrid? (i : Interval) (grid : Int) : Option Scaled :=
  let s := i.scale grid
  let value := i.value * s.1
  let below := value / s.2
  let remainder := value % s.2
  let point? : Option Nat :=
    match i.contains s below && below != 0, i.contains s (below + 1) with
    | true, true => some (if 2 * remainder < s.2 then below else below + 1)
    | true, false => some below
    | false, true => some (below + 1)
    | false, false => none
  point?.map fun digits => { digits, exponent := grid }

/-- The exponent of the leading decimal digit of the value, counted up from a guess that the binary
logarithm gives and that is at most one too small. -/
def leading (i : Interval) : Int :=
  -- 1233 / 4096 is the logarithm of two to base ten, close enough for the exponents of floats.
  let guess := ((Nat.log2 i.value : Int) + i.exponent) * 1233 / 4096 - 1
  let reaches (k : Int) : Bool :=
    let s := i.scale k
    s.2 ≤ i.value * s.1
  if reaches (guess + 2) then guess + 2
  else if reaches (guess + 1) then guess + 1
  else if reaches guess then guess
  else guess - 1

/-- The first grid with a hit, starting from `grid` and refining it at most `left` times. -/
def search (i : Interval) (grid : Int) : Nat → Scaled
  | 0 => { digits := i.value, exponent := 0 }
  | left + 1 =>
    match i.onGrid? grid with
    | some d => d
    | none => i.search (grid - 1) left

end Interval

/-- Drop the trailing zeros of the digits, moving them into the exponent; `fuel` bounds their
number. -/
def Scaled.trim (d : Scaled) : Nat → Scaled
  | 0 => d
  | fuel + 1 =>
    if d.digits != 0 && d.digits % 10 == 0 then
      Scaled.trim { digits := d.digits / 10, exponent := d.exponent + 1 } fuel
    else d

/-- The shortest decimal that reads back as the positive float with these parts. -/
def shortest (p : Double.Parts) : Scaled :=
  let i := Interval.ofParts p
  (i.search i.leading 18).trim 18

end TwinLisp.Decimal
