import TwinLisp.Number.Kernel
import TwinLisp.Session.Data
import TwinLisp.Value.Native

/-!
# Arguments of built-ins

What all built-ins have in common: how they refuse a number of arguments or an argument of the wrong
type, how they blame a numeric fault on one of their arguments, and what they accept as a sequence.
-/

namespace TwinLisp.Library

/-- Refuse a number of arguments. -/
def refuseCount {α : Type} (b : Builtin) (accepts : Accepts) (args : List Value) : Eval α :=
  Eval.failWith (.arity b.name accepts args.length)

/-- Refuse the value `v` of argument `i`. -/
def refuse {α : Type} (b : Builtin) (i : Nat) (expected : String) (v : Value) : Eval α :=
  Eval.failAt i (.typeMismatch b.name expected v.typeName)

/-- The result of a numeric operation whose first operand is argument `first`. -/
def settle {α : Type} (first : Nat) : Except NumericFault α → Eval α
  | .ok a => pure a
  | .error ⟨.operand i, cause⟩ => Eval.failAt (first + i) cause
  | .error ⟨.operation, cause⟩ => do Eval.fail ((Fault.of cause).orAt (← Eval.callSite))

/-- The result of a numeric operation all of whose faults are blamed on argument `i`. -/
def settleOn {α : Type} (i : Nat) : Except NumericFault α → Eval α
  | .ok a => pure a
  | .error ⟨_, cause⟩ => Eval.failAt i cause

/-- The integer that argument `i` is. -/
def integer (b : Builtin) (i : Nat) : Value → Eval Int64
  | .int n => pure n
  | v => refuse b i "integer" v

/-- The elements of argument `i`: of a list, a vector or a set its items, of a map its entries as
vectors, of a string its characters, and none of `nil`. -/
def elements (b : Builtin) (i : Nat) : Value → Eval (List Value)
  | .nil => pure []
  | .ref .list a => return (← Eval.items? (.ref .list a)).getD []
  | .ref .vector a => return (← Eval.items? (.ref .vector a)).getD []
  | .ref .set a => return ((← Eval.set? (.ref .set a)).getD .empty).toList
  | .ref .map a => do
    let m := (← Eval.map? (.ref .map a)).getD .empty
    m.toList.mapM fun e => Eval.newVector [e.1, e.2]
  | .ref .str a => return ((← Eval.string? (.ref .str a)).getD "").toList.map .char
  | v => refuse b i "sequence" v

end TwinLisp.Library
