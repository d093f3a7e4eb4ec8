/-!
# Numeric operators

The names of the binary operators that have a meaning of their own: the four of arithmetic, the four
comparisons, and the three ways to divide integers with remainder. The first eight are the *core
operators*, which no program may rebind.
-/

namespace TwinLisp

/-- An arithmetic operator. -/
inductive ArithOp where
  | add
  | sub
  | mul
  | div
  deriving DecidableEq

/-- The operator as written in source. -/
def ArithOp.name : ArithOp → String
  | .add => "+"
  | .sub => "-"
  | .mul => "*"
  | .div => "/"

/-- The operator as listings show it. -/
def ArithOp.label : ArithOp → String
  | .add => "Add"
  | .sub => "Sub"
  | .mul => "Mul"
  | .div => "Div"

/-- A comparison. -/
inductive CompareOp where
  | lt
  | gt
  | le
  | ge
  deriving DecidableEq

/-- The comparison as written in source. -/
def CompareOp.name : CompareOp → String
  | .lt => "<"
  | .gt => ">"
  | .le => "<="
  | .ge => ">="

/-- The comparison as listings show it. -/
def CompareOp.label : CompareOp → String
  | .lt => "Lt"
  | .gt => "Gt"
  | .le => "Le"
  | .ge => "Ge"

/-- Whether an ordering satisfies the comparison. -/
def CompareOp.holds : CompareOp → Ordering → Bool
  | .lt, o => o.isLT
  | .gt, o => o.isGT
  | .le, o => o.isLE
  | .ge, o => o.isGE

/-- A division of integers with remainder. -/
inductive DivisionOp where
  /-- The quotient, rounded toward zero. -/
  | quot
  /-- The remainder, with the sign of the dividend. -/
  | rem
  /-- The remainder, with the sign of the divisor. -/
  | mod
  deriving DecidableEq

/-- The division as written in source. -/
def DivisionOp.name : DivisionOp → String
  | .quot => "quot"
  | .rem => "rem"
  | .mod => "mod"

/-- An operator that cannot be rebound. -/
inductive CoreOp where
  | arith (op : ArithOp)
  | compare (op : CompareOp)
  deriving DecidableEq

/-- The core operator with the given name. -/
def CoreOp.ofName? : String → Option CoreOp
  | "+" => some (.arith .add)
  | "-" => some (.arith .sub)
  | "*" => some (.arith .mul)
  | "/" => some (.arith .div)
  | "<" => some (.compare .lt)
  | ">" => some (.compare .gt)
  | "<=" => some (.compare .le)
  | ">=" => some (.compare .ge)
  | _ => none

end TwinLisp
