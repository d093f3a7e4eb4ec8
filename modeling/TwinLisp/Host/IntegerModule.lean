import TwinLisp.Host.Conversion
import TwinLisp.Library.Native

/-!
# The integer module

Host functions on integers of thirty-two bits, which the command line offers to every program. A
result that does not fit is a failure.

## Main definitions

* `IntegerModule.functions` lists them in the order in which they are registered.
-/

namespace TwinLisp

namespace IntegerModule

/-- Whether an integer has thirty-two bits. -/
def fits (n : Int) : Bool := Int32.minValue.toInt ≤ n && n ≤ Int32.maxValue.toInt

/-- `n` if it fits. -/
def fitting? (n : Int) : Option Int := if fits n then some n else none

/-- The Fibonacci number `steps` places after `b`, where `a` comes before `b`. -/
def fibonacciFrom (a b : Int) : Nat → Option Int
  | 0 => some b
  | steps + 1 =>
    match fitting? (a + b) with
    | some c => fibonacciFrom b c steps
    | none => none

/-- A Fibonacci number, if it fits. An index below two is its own number. -/
def fibonacci? (n : Int) : Option Int :=
  if n ≤ 1 then some n else fibonacciFrom 0 1 (n.toNat - 1)

/-- `product` times `steps` numbers from `i` on, if all products fit. -/
def productFrom (product i : Int) : Nat → Option Int
  | 0 => some product
  | steps + 1 =>
    match fitting? (product * i) with
    | some p => productFrom p (i + 1) steps
    | none => none

/-- A factorial, if it fits. -/
def factorial? (n : Int) : Option Int := productFrom 1 2 (n.toNat - 1)

/-- The greatest common divisor up to its sign, by repeated remainders of truncated division. -/
def gcd (a b : Int) : Int :=
  if b = 0 then a else gcd b (a.tmod b)
termination_by b.natAbs
decreasing_by
  rw [Int.natAbs_tmod]
  exact Nat.mod_lt _ (Int.natAbs_pos.2 ‹_›)

/-- Whether none of `i`, `i + 1`, … up to the square root of `n` divides `n`, looking at no more than
`fuel` of them. -/
def hasNoDivisorFrom (n i : Nat) : Nat → Bool
  | 0 => true
  | fuel + 1 =>
    if n < i * i then true
    else if n % i == 0 then false
    else hasNoDivisorFrom n (i + 1) fuel

/-- Whether an integer is a prime number. -/
def isPrime (n : Int) : Bool := 2 ≤ n && hasNoDivisorFrom n.toNat 2 n.toNat

/-- An integer as a value, or the failure of the operation that should have produced it. -/
def result (operation : String) (n : Option Int) : Eval Value :=
  match n with
  | some n => return .int (.ofInt n)
  | none =>
    Eval.failWith (.reported .arithmeticError (operation ++ " overflowed a 32-bit integer"))

/-- The integer that an argument is. -/
def argument (v : Value) : Eval Int := do
  let n ← HostType.int32.ofValue v
  return Int32.toInt n

/-- A function of one integer. -/
def unary (name : String) (f : Int → Eval Value) : HostFunction where
  name := name
  arity := 1
  run
    | [v] => do f (← argument v)
    | _ => return .nil

/-- A function of two integers. -/
def binary (name : String) (f : Int → Int → Eval Value) : HostFunction where
  name := name
  arity := 2
  run
    | [v, w] => do
      let m ← argument v
      let n ← argument w
      f m n
    | _ => return .nil

/-- The functions of the module. -/
def functions : List HostFunction :=
  [binary "host/add" fun m n => result "add" (fitting? (m + n)),
    binary "host/multiply" fun m n => result "multiply" (fitting? (m * n)),
    unary "host/fibonacci" fun n => result "fibonacci" (fibonacci? n),
    unary "host/factorial" fun n => result "factorial" (factorial? n),
    binary "host/gcd" fun m n => return .int (.ofInt (gcd m n)),
    unary "host/prime?" fun n => return .bool (isPrime n)]

end IntegerModule

end TwinLisp
