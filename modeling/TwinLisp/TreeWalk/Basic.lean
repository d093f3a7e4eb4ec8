import TwinLisp.Library.Native
import TwinLisp.Session.Raised
import TwinLisp.Special.Shape

/-!
# Walking over forms: the ground

The first evaluator goes over a form and computes the value of each part directly. What it needs to
know about its surroundings is a *place*: the location to blame for a form that has none, the scope
to look names up in, and the nodes that a collection has to keep because computations around this one
will go on with them.

A form yields a value or the values with which to start the loop or function around it over again.

The evaluator is written against a *walker*, which evaluates the parts of a form and calls functions.
The walker that spends one unit of fuel for every level is put together at the end.

## Main definitions

* `Outcome`, `WalkPlace` and `Walker`.
* `Walker.values` and `Walker.body` evaluate several forms in order.
-/

namespace TwinLisp

/-- What a form yields. -/
inductive Outcome where
  /-- A value. -/
  | value (v : Value)
  /-- New values for the bindings of the loop or function around. -/
  | recur (vs : List Value)

/-- The values that an outcome holds. -/
def Outcome.values : Outcome → List Value
  | .value v => [v]
  | .recur vs => vs

/-- Where evaluation stands. -/
structure WalkPlace where
  /-- The location of the innermost form around that has one. -/
  cursor : Location
  /-- Where to look names up. -/
  scope : ScopeId
  /-- What computations around this one still need. -/
  held : List Node

namespace WalkPlace

/-- Inside a form at `l`. -/
def within (p : WalkPlace) (l : Location) : WalkPlace := { p with cursor := l.orElse p.cursor }

/-- With some values still needed. -/
def holding (p : WalkPlace) (vs : List Value) : WalkPlace :=
  { p with held := Node.ofValues vs ++ p.held }

/-- In a scope that is still needed. -/
def inScope (p : WalkPlace) (scope : ScopeId) : WalkPlace :=
  { p with scope, held := .scope scope :: p.held }

end WalkPlace

/-- A call of a function value. -/
structure CallRequest where
  /-- The function. -/
  callee : Value
  /-- The arguments. -/
  args : List Value
  /-- Where the call stands. -/
  site : Location
  /-- Where the arguments stand, as far as they stand anywhere. -/
  locations : List Location
  /-- What computations around the call still need. -/
  held : List Node

/-- The means to evaluate forms and to call functions. -/
structure Walker where
  /-- Evaluate a form. -/
  eval : WalkPlace → Form → Eval Outcome
  /-- Call a function. -/
  call : CallRequest → Eval Value
  /-- How often a loop may start over. -/
  fuel : Nat

namespace Walker

/-- The value of a form from which no `recur` leads out. -/
def value (w : Walker) (p : WalkPlace) (f : Form) : Eval Value := do
  match ← w.eval p f with
  | .value v => return v
  | .recur _ => Eval.defect .recurEscaped

/-- The values of some forms, in order. Each one is kept until the last is known. -/
def values (w : Walker) (p : WalkPlace) : List Form → Eval (List Value)
  | [] => return []
  | f :: fs => do
    let v ← w.value p f
    let vs ← w.values (p.holding [v]) fs
    return v :: vs

/-- The outcome of the last of some forms; `nil` if there are none. -/
def body (w : Walker) (p : WalkPlace) : List Form → Eval Outcome
  | [] => return .value .nil
  | [f] => w.eval p f
  | f :: fs => do
    let _ ← w.value p f
    w.body p fs

/-- Call a function from within a native function. -/
def callback (w : Walker) : Caller := fun callee args => do
  w.call { callee, args, site := ← Eval.callSite, locations := [], held := [] }

end Walker

end TwinLisp
