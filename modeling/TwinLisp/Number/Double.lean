/-!
# Floating-point numbers

The language's floats are IEEE 754 binary64 numbers. The core type `Float` has a single
not-a-number, whereas the language can tell them apart: nothing prints the sign of a not-a-number or
the rest of its representation, but identity and map keys see both, and a host can hand in and get
back any of them. `Double` therefore keeps the ordinary numbers in a `Float` and gives a not-a-number
its representation beside them.

The rule for operations is that of the common processors: an operand that is not a number passes
through, the left one before the right one, and is quiet from then on; an operation that has no
meaningful result on numbers (`∞ - ∞`, `0 / 0`) yields the negative one without a payload.

## Main definitions

* `Double.add`, `Double.sub`, `Double.mul`, `Double.div`, `Double.neg`: arithmetic.
* `Double.rem`: the exact remainder of truncated division.
* `Double.compare?`: the ordering, undefined as soon as one side is not a number.
* `Double.identical`: sameness of representation, under which `0.0` and `-0.0` differ.
-/

namespace TwinLisp

/-- What is represented of a not-a-number apart from its sign. -/
structure Double.Mark where
  /-- Whether it is the result of an operation, or could be one. -/
  quiet : Bool
  /-- The fifty-one bits that mean nothing. -/
  payload : Nat
  payload_lt : payload < Nat.pow 2 51
  /-- Without any bit set an infinity would be represented. -/
  proper : quiet = true ∨ 0 < payload
  deriving DecidableEq

/-- The mark that operations leave on a result of their own. -/
def Double.Mark.plain : Mark where
  quiet := true
  payload := 0
  payload_lt := by decide
  proper := .inl rfl

/-- The mark of what was an operand. -/
def Double.Mark.quieted (m : Mark) : Mark := { m with quiet := true, proper := .inl rfl }

/-- A floating-point number. -/
inductive Double where
  /-- A number, an infinity or a zero of either sign. -/
  | number (x : Float)
  /-- The result of an operation that has none, with the sign it carries. -/
  | notANumber (negative : Bool) (mark : Double.Mark := .plain)
  deriving DecidableEq, Inhabited

namespace Double

/-- `x` as a language float; a not-a-number arising from an operation is the negative one. -/
def ofResult (x : Float) : Double :=
  if x.isNaN then .notANumber true else .number x

/-- The float nearest to the integer `n`. -/
def ofInt64 (n : Int64) : Double := .number n.toFloat

/-- Positive infinity. -/
def infinity : Double := .number (1.0 / 0.0)

/-- Negative infinity. -/
def negInfinity : Double := .number (-1.0 / 0.0)

/-- Lift a binary operation: a not-a-number passes through, the left one first. -/
def lift (f : Float → Float → Float) : Double → Double → Double
  | .notANumber s m, _ => .notANumber s m.quieted
  | .number _, .notANumber s m => .notANumber s m.quieted
  | .number x, .number y => ofResult (f x y)

/-! ### Arithmetic -/

/-- Sum. -/
def add : Double → Double → Double := lift (· + ·)

/-- Difference. -/
def sub : Double → Double → Double := lift (· - ·)

/-- Product. -/
def mul : Double → Double → Double := lift (· * ·)

/-- Quotient; division by zero gives an infinity, or not-a-number for a zero dividend. -/
def div : Double → Double → Double := lift (· / ·)

/-- Negation, which flips the sign of zeros and of not-a-number too. -/
def neg : Double → Double
  | .notANumber s m => .notANumber (!s) m
  | .number x => .number (-x)

/-- The integer part, rounding toward zero and keeping the sign of a zero result. -/
def truncate : Double → Double
  | .notANumber s m => .notANumber s m.quieted
  | .number x => .number (if x < 0.0 then x.ceil else x.floor)

/-! ### Decomposition

A finite number is `± mantissa · 2 ^ exponent` with natural mantissa, read off its bits. -/

/-- A finite number as sign, mantissa and binary exponent. -/
structure Parts where
  /-- Whether the sign bit is set. -/
  negative : Bool
  /-- The integer mantissa, below `2 ^ 53`. -/
  mantissa : Nat
  /-- The power of two that the mantissa is multiplied by. -/
  exponent : Int
  deriving DecidableEq

/-- The parts of a finite `x`; infinities decompose as if they were one binade higher. -/
def parts (x : Float) : Parts :=
  let bits := x.toBits.toNat
  let fraction : Nat := bits % Nat.pow 2 52
  let biased : Nat := bits / Nat.pow 2 52 % Nat.pow 2 11
  { negative := bits / Nat.pow 2 63 == 1
    mantissa := if biased == 0 then fraction else Nat.pow 2 52 + fraction
    exponent := if biased == 0 then -1074 else (biased : Int) - 1075 }

/-- Whether `x` is neither infinite nor not-a-number. -/
def isFinite (x : Float) : Bool := x.toBits.toNat / Nat.pow 2 52 % Nat.pow 2 11 != 2047

/-- The remainder of dividing the finite `x` by the finite non-zero `y`, with the sign of `x`. Both
are scaled to a common power of two, where the remainder of the mantissas is exact. -/
def finiteRem (x y : Float) : Float :=
  let p := parts x
  let q := parts y
  let e := min p.exponent q.exponent
  let r : Nat :=
    (p.mantissa * Nat.pow 2 (p.exponent - e).toNat) %
      (q.mantissa * Nat.pow 2 (q.exponent - e).toNat)
  let magnitude := (Float.ofNat r).scaleB e
  if p.negative then -magnitude else magnitude

/-- Remainder of truncated division. A number modulo an infinity is the number itself; an infinity
has no remainder. -/
def rem : Double → Double → Double :=
  lift fun x y =>
    if !isFinite x then 0.0 / 0.0
    else if !isFinite y then x
    else if y == 0.0 then 0.0 / 0.0
    else finiteRem x y

/-! ### Comparison -/

/-- Numeric equality: zeros of either sign are equal, and not-a-number equals nothing. -/
def eq : Double → Double → Bool
  | .number x, .number y => x == y
  | _, _ => false

/-- The ordering of two numbers, if both are numbers. -/
def compare? : Double → Double → Option Ordering
  | .number x, .number y => some (if x < y then .lt else if x == y then .eq else .gt)
  | _, _ => none

/-- The sixty-four bits that represent the float. -/
def toBits : Double → UInt64
  | .number x => x.toBits
  | .notANumber negative m =>
    .ofNat ((if negative then Nat.pow 2 63 else 0) + 2047 * Nat.pow 2 52 +
      (if m.quiet then Nat.pow 2 51 else 0) + m.payload)

/-- Whether two floats have the same representation. -/
def identical (a b : Double) : Bool := a.toBits == b.toBits

end Double

end TwinLisp
