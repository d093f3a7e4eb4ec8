import TwinLisp.Library.Arguments

/-!
# Built-ins that ask

Type tests, equality and truth.
-/

namespace TwinLisp.Library

/-- Whether the only argument passes a test that looks at the value alone. -/
def typeTest (b : Builtin) (test : Value → Bool) : List Value → Eval Value
  | [x] => return .bool (test x)
  | args => refuseCount b (.exactly 1) args

/-- Whether a value refers to an object of the given kind. -/
def isRef (k : Kind) : Value → Bool
  | .ref l _ => l == k
  | _ => false

/-- Whether the only argument is a list or a vector that has not been reclaimed. -/
def isSequential : List Value → Eval Value
  | [x] => do
    match (← get).heap.objectOf? x with
    | some (.list _ _) => return .bool true
    | some (.vector _ _) => return .bool true
    | _ => return .bool false
  | args => refuseCount .isSequential (.exactly 1) args

/-- Whether each value equals the one before it, up to the first one that does not. -/
def allEqual (previous : Value) : List Value → Eval Bool
  | [] => pure true
  | x :: xs => do
    if ← Eval.areEqual previous x then allEqual x xs else return false

/-- Whether all arguments are equal, or whether they are not. -/
def equality (b : Builtin) (wanted : Bool) : List Value → Eval Value
  | [] => refuseCount b (.atLeast 1) []
  | x :: xs => return .bool ((← allEqual x xs) == wanted)

/-- Whether two values are the same. -/
def identical : List Value → Eval Value
  | [x, y] => return .bool (x.identical y)
  | args => refuseCount .identical (.exactly 2) args

end TwinLisp.Library
