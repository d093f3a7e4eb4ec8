import TwinLisp.Library.Arguments

/-!
# Built-ins on numbers

The variadic operators fold the binary operations. A fault in the step that takes argument `i` is
blamed on that argument, an overflow on the call.

A range goes from its start to its end and stops before a number that would not fit; the end has been
reached then.

## Main definitions

* `fold`, `chain`, `extremum`: the three ways to go through the arguments.
* `rangeFrom`: the way from one number to another in equal steps.
-/

namespace TwinLisp.Library

open Numeric

/-- Fold an arithmetic operation over the arguments from position `i` on. -/
def foldFrom (op : ArithOp) (acc : Value) (i : Nat) : List Value → Eval Value
  | [] => pure acc
  | x :: xs => do
    let acc ← settle (i - 1) (arith op acc x)
    foldFrom op acc (i + 1) xs

/-- Fold an arithmetic operation over a first argument and more. -/
def fold (op : ArithOp) (first : Value) (more : List Value) : Eval Value := do
  settle 0 (checkNumber op.name 0 first)
  foldFrom op first 1 more

/-- Sum. -/
def add : List Value → Eval Value
  | [] => return .int 0
  | x :: xs => fold .add x xs

/-- Product. -/
def mul : List Value → Eval Value
  | [] => return .int 1
  | x :: xs => fold .mul x xs

/-- Difference, or the negation of a single argument. -/
def sub : List Value → Eval Value
  | [] => refuseCount .sub (.atLeast 1) []
  | [x] => settleOn 0 (negate x)
  | x :: xs => fold .sub x xs

/-- Quotient, or the reciprocal of a single argument. -/
def div : List Value → Eval Value
  | [] => refuseCount .div (.atLeast 1) []
  | [x] => settleOn 0 (arith .div (.int 1) x)
  | x :: xs => fold .div x xs

/-- Division with remainder. -/
def divided (b : Builtin) (op : DivisionOp) : List Value → Eval Value
  | [x, y] => settle 0 (divide op x y)
  | args => refuseCount b (.exactly 2) args

/-- The neighbour of a number. -/
def step (b : Builtin) (op : ArithOp) : List Value → Eval Value
  | [x] => do
    settleOn 0 (checkNumber b.name 0 x)
    settle 0 (arith op x (.int 1))
  | args => refuseCount b (.exactly 1) args

/-- The best argument from position `i` on, or the best one before. -/
def extremumFrom (b : Builtin) (better : CompareOp) (best : Value) (i : Nat) :
    List Value → Eval Value
  | [] => pure best
  | x :: xs => do
    settleOn i (checkNumber b.name 0 x)
    let replace ← settle i (compareNumbers better x best)
    extremumFrom b better (if replace then x else best) (i + 1) xs

/-- The best argument; of several the first one. -/
def extremum (b : Builtin) (better : CompareOp) : List Value → Eval Value
  | [] => refuseCount b (.atLeast 1) []
  | x :: xs => do
    settleOn 0 (checkNumber b.name 0 x)
    extremumFrom b better x 1 xs

/-- Whether every argument from position `i` on compares with the one before it. -/
def chainFrom (op : CompareOp) (i : Nat) (previous : Value) : List Value → Eval Bool
  | [] => pure true
  | x :: xs => do
    let here ← settle i (compareNumbers op previous x)
    let rest ← chainFrom op (i + 1) x xs
    return here && rest

/-- Whether the arguments are in order. All of them have to be numbers, also where the answer is
known already. -/
def chain (b : Builtin) (op : CompareOp) : List Value → Eval Value
  | [] => refuseCount b (.atLeast 1) []
  | x :: xs => do
    settle 0 (checkNumber op.name 0 x)
    return .bool (← chainFrom op 0 x xs)

/-- Whether a number passes a test against zero. -/
def signTest (b : Builtin) (test : Ordering → Bool) : List Value → Eval Value
  | [x] => do
    settleOn 0 (checkNumber b.name 0 x)
    return .bool (((toDouble x).compare? (.number 0.0)).any test)
  | args => refuseCount b (.exactly 1) args

/-- Whether the remainder modulo two is zero, or is not. -/
def parity (b : Builtin) (even : Bool) : List Value → Eval Value
  | [x] => do
    let n ← integer b 0 x
    return .bool ((n.toInt % 2 == 0) == even)
  | args => refuseCount b (.exactly 1) args

/-- Whether the number `i` comes before `stop` on a way that goes in steps of `step`. -/
def comesBefore (stop step i : Int) : Bool := (0 < step && i < stop) || (step < 0 && stop < i)

/-- Go from `i` to `stop` in steps of `step`, putting the numbers on the way behind `items`. A number that
does not fit sixty-four bits is not gone to. -/
def rangeFrom (stop step : Int64) (items : Array Value) (i : Int64) : Array Value :=
  if comesBefore stop.toInt step.toInt i.toInt then
    let items := items.push (.int i)
    match next : toInt64? (i.toInt + step.toInt) with
    | some j =>
      have := toInt_of_toInt64? next
      rangeFrom stop step items j
    | none => items
  else items
termination_by if 0 < step.toInt then (stop.toInt - i.toInt).toNat else (i.toInt - stop.toInt).toNat
decreasing_by
  simp only [comesBefore, Bool.or_eq_true, Bool.and_eq_true, decide_eq_true_eq] at *
  split <;> omega

/-- The start, the end and the step that the arguments give. -/
def rangeBounds : List Value → Eval (Int64 × Int64 × Int64)
  | [stop] => do return (0, ← integer .range 0 stop, 1)
  | [start, stop] => do return (← integer .range 0 start, ← integer .range 1 stop, 1)
  | [start, stop, step] => do
    return (← integer .range 0 start, ← integer .range 1 stop, ← integer .range 2 step)
  | args => refuseCount .range (.between 1 3) args

/-- An arithmetic progression. -/
def range (args : List Value) : Eval Value := do
  let (start, stop, step) ← rangeBounds args
  if step == 0 then Eval.failAt 2 .zeroStep
  Eval.newList (rangeFrom stop step #[] start).toList

end TwinLisp.Library
