import TwinLisp.TreeWalk.Basic

/-!
# Walking over forms: calls

A call of a closure opens a scope inside the one where the closure was made, binds the closure's own
name, the parameters and the list of further arguments in it, and evaluates the body there. When the
body asks to start over, it does so in a scope of its own. Every start is a point where a collection
may happen.
-/

namespace TwinLisp.Walker

/-- Bind names to values in a scope, in order. -/
def bindAll (scope : ScopeId) : List (Symbol × Value) → Eval Unit
  | [] => return ()
  | (name, v) :: rest => do
    Eval.define scope name v
    bindAll scope rest

/-- The list of further arguments; `nil` if there are none. -/
def restArgument (extra : List Value) : Eval Value :=
  if extra.isEmpty then return .nil else Eval.newList extra

/-- Open a scope for a run of a body of the closure `c`, which is the value `self`, and bind its names.
On the first run the arguments beyond the fixed parameters are made a list; when the body starts over,
they come as one already. -/
def openRun (self : Value) (c : Closure) (o : ClosureOverload) (isFirst : Bool) (vs : List Value) :
    Eval ScopeId := do
  let scope ← Eval.openScope c.scope
  bindAll scope (c.name.toList.map (·, self))
  bindAll scope (o.params.zip vs)
  if let some rest := o.rest then
    let extra := vs.drop o.params.length
    let v ← if isFirst then restArgument extra else pure (extra.head?.getD .nil)
    Eval.define scope rest v
  return scope

/-- Run a body of the closure `c`, which is the value `self`, until it does not start over. -/
def runOverload (w : Walker) (self : Value) (c : Closure) (o : ClosureOverload) (held : List Node) :
    Nat → Bool → List Value → Eval Value
  | 0, _, _ => throw .outOfFuel
  | fuel + 1, isFirst, vs => do
    let scope ← openRun self c o isFirst vs
    let p : WalkPlace := ⟨c.location, scope, .scope scope :: held⟩
    Eval.maybeCollect fun _ => p.held
    match ← w.body p o.body with
    | .value v => return v
    | .recur vs => runOverload w self c o held fuel false vs

/-- Call the closure `c`. -/
def applyClosure (w : Walker) (c : Closure) (r : CallRequest) : Eval Value := do
  match c.select? r.args.length with
  | none =>
    Eval.failWith
      (.arity (← Eval.calleeName c.name) (Overload.accepts c.shapes) r.args.length)
  | some o =>
    Eval.enterCall
    Eval.always Eval.leaveCall
      (w.runOverload r.callee c o (Node.ofValue r.callee ++ r.held) w.fuel true r.args)

/-- Call a function value. -/
def apply (natives : NativeRunner) (w : Walker) (r : CallRequest) : Eval Value :=
  let data := Eval.attributed r.site r.locations (Library.callData r.callee r.args)
  match r.callee with
  | .ref .function _ => do
    let f ← Eval.blaming r.site (Eval.callable r.callee)
    match f.body with
    | .native n =>
      Eval.attributed r.site r.locations (natives w.callback n r.args)
    | .interpreted c => Eval.blaming r.site (w.applyClosure c r)
    | .compiled _ _ => Eval.blaming r.site (Eval.defect .compiledInTreeWalk)
  | .keyword _ => data
  | .ref .map _ => data
  | .ref .set _ => data
  | .ref .vector _ => data
  | v => Eval.blaming r.site (Eval.failWith (.notCallable v.typeName))

end TwinLisp.Walker
