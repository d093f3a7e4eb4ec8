import TwinLisp.Fault.Cause
import TwinLisp.Number.Operator

/-!
# Numeric operations

Arithmetic and comparison of two values. This is the only place where numbers are computed with: the
variadic built-ins fold over it, and the inline operators of compiled code call it.

Integer results are exact or refused. Division of integers yields an integer where it comes out even
and a float where it does not. As soon as one operand is a float both are taken as floats.

A fault says which operand is to blame, or that the operation as a whole is.

## Main definitions

* `arith`, `compareNumbers`, `negate` and `divide` on values.
* `toInt64?`: the integers that fit sixty-four bits.

## Main statements

* `toInt_of_toInt64?`: what fits is not changed.
-/

namespace TwinLisp

/-- What a numeric fault is blamed on. -/
inductive Blame where
  /-- The operand with this position. -/
  | operand (i : Nat)
  /-- The operation as a whole. -/
  | operation
  deriving DecidableEq

/-- A failed numeric operation. -/
structure NumericFault where
  /-- What is to blame. -/
  blame : Blame
  /-- Why it failed. -/
  cause : Cause
  deriving DecidableEq

namespace Numeric

/-- `n` as a sixty-four bit integer, if it fits. -/
def toInt64? (n : Int) : Option Int64 :=
  if Int64.minValue.toInt ≤ n ∧ n ≤ Int64.maxValue.toInt then some (.ofInt n) else none

theorem toInt_of_toInt64? {n : Int} {m : Int64} (h : toInt64? n = some m) : m.toInt = n := by
  unfold toInt64? at h
  split at h
  · next hn =>
    cases h
    have low : -2 ^ 63 ≤ n := by simpa using hn.1
    have high : n ≤ 2 ^ 63 - 1 := hn.2
    exact Int64.toInt_ofInt_of_le low (by omega)
  · simp at h

/-- The exact result `n` of an integer operation, or an overflow. -/
def exact (operation : String) (n : Int) : Except NumericFault Value :=
  match toInt64? n with
  | some m => .ok (.int m)
  | none => .error ⟨.operation, .overflow operation⟩

/-- Refuse a value that is not a number, given as operand `i`. -/
def checkNumber (operation : String) (i : Nat) (v : Value) : Except NumericFault Unit :=
  if v.isNumber then .ok ()
  else .error ⟨.operand i, .typeMismatch operation "number" v.typeName⟩

/-- A number as a float. -/
def toDouble : Value → Double
  | .int n => .ofInt64 n
  | .float x => x
  | _ => .notANumber false

/-- A division by a zero that was given as the second operand. -/
def divisionByZero : NumericFault := ⟨.operand 1, .divideByZero⟩

/-- Arithmetic on integers. -/
def arithInt (op : ArithOp) (x y : Int64) : Except NumericFault Value :=
  let (m, n) := (x.toInt, y.toInt)
  match op with
  | .add => exact op.name (m + n)
  | .sub => exact op.name (m - n)
  | .mul => exact op.name (m * n)
  | .div =>
    if n == 0 then .error divisionByZero
    else if m.tmod n == 0 then exact op.name (m.tdiv n)
    else .ok (.float ((Double.ofInt64 x).div (.ofInt64 y)))

/-- Arithmetic on floats. -/
def arithDouble (op : ArithOp) (x y : Double) : Double :=
  match op with
  | .add => x.add y
  | .sub => x.sub y
  | .mul => x.mul y
  | .div => x.div y

/-- Arithmetic. -/
def arith (op : ArithOp) (a b : Value) : Except NumericFault Value := do
  checkNumber op.name 0 a
  checkNumber op.name 1 b
  match a, b with
  | .int x, .int y => arithInt op x y
  | _, _ => return .float (arithDouble op (toDouble a) (toDouble b))

/-- The order of two numbers, if there is one. -/
def order? (a b : Value) : Option Ordering :=
  match a, b with
  | .int x, .int y => some (compare x.toInt y.toInt)
  | _, _ => (toDouble a).compare? (toDouble b)

/-- Comparison. Nothing holds of a not-a-number. -/
def compareNumbers (op : CompareOp) (a b : Value) : Except NumericFault Bool := do
  checkNumber op.name 0 a
  checkNumber op.name 1 b
  return (order? a b).any op.holds

/-- Negation. -/
def negate (a : Value) : Except NumericFault Value := do
  checkNumber "-" 0 a
  match a with
  | .int n => exact "-" (-n.toInt)
  | _ => return .float (toDouble a).neg

/-- Division of integers with remainder. All three operations need a quotient that fits. -/
def divideInt (op : DivisionOp) (m n : Int) : Except NumericFault Value := do
  if n == 0 then throw divisionByZero
  let quotient ← exact op.name (m.tdiv n)
  match op with
  | .quot => return quotient
  | .rem => exact op.name (m.tmod n)
  | .mod => exact op.name (m.fmod n)

/-- Whether a float is less than zero. -/
def isNegative (x : Double) : Bool := x.compare? (.number 0.0) == some .lt

/-- Division of floats with remainder. -/
def divideDouble (op : DivisionOp) (x y : Double) : Double :=
  match op with
  | .quot => (x.div y).truncate
  | .rem => x.rem y
  | .mod =>
    let r := x.rem y
    if !r.eq (.number 0.0) && isNegative r != isNegative y then r.add y else r

/-- Division with remainder. The divisor must not be zero, whatever its type. -/
def divide (op : DivisionOp) (a b : Value) : Except NumericFault Value := do
  checkNumber op.name 0 a
  checkNumber op.name 1 b
  match a, b with
  | .int x, .int y => divideInt op x.toInt y.toInt
  | _, _ =>
    let (x, y) := (toDouble a, toDouble b)
    if y.eq (.number 0.0) then throw divisionByZero
    return .float (divideDouble op x y)

end Numeric

end TwinLisp
