import TwinLisp.Expansion.Quotation
import TwinLisp.TreeWalk.Call

/-!
# Walking over forms: special forms

One rule for each special form. The forms have been checked before, so their shapes are known to be
right.
-/

namespace TwinLisp.Walker

/-- Evaluate bindings in order, each with the ones before it in scope. -/
def bindInOrder (w : Walker) (p : WalkPlace) : List Binding → Eval (List Symbol)
  | [] => return []
  | (name, value) :: rest => do
    let v ← w.value p value
    let symbol ← Eval.intern name
    Eval.define p.scope symbol v
    return symbol :: (← w.bindInOrder p rest)

/-- `(let [name value…] body…)` -/
def evalLet (w : Walker) (p : WalkPlace) (f : Form) : Eval Outcome := do
  let bindings ← Eval.ofExcept (Shape.bindings "let" f)
  let inner := p.inScope (← Eval.openScope p.scope)
  let _ ← w.bindInOrder inner bindings
  w.body inner (Shape.bindingBody f)

/-- Run the body of a loop, which starts over in a new scope inside that of `p`. -/
def runLoop (w : Walker) (p : WalkPlace) (names : List Symbol) (forms : List Form) :
    Nat → ScopeId → Eval Outcome
  | 0, _ => throw .outOfFuel
  | fuel + 1, scope => do
    match ← w.body (p.inScope scope) forms with
    | .value v => return .value v
    | .recur vs =>
      let scope ← Eval.openScope p.scope
      bindAll scope (names.zip vs)
      Eval.maybeCollect fun _ => (p.inScope scope).held
      runLoop w p names forms fuel scope

/-- `(loop [name value…] body…)` -/
def evalLoop (w : Walker) (p : WalkPlace) (f : Form) : Eval Outcome := do
  let bindings ← Eval.ofExcept (Shape.bindings "loop" f)
  let scope ← Eval.openScope p.scope
  let names ← w.bindInOrder (p.inScope scope) bindings
  w.runLoop p names (Shape.bindingBody f) w.fuel scope

/-- The overloads of a closure. -/
def closureOverloads (overloads : List OverloadShape) : Eval (List ClosureOverload) :=
  overloads.mapM fun o => do
    let params ← o.params.mapM Eval.intern
    let rest ← o.rest.mapM Eval.intern
    return { params, rest, body := o.body }

/-- A new closure. -/
def newClosure (p : WalkPlace) (name : Option Symbol) (isMacro : Bool)
    (overloads : List OverloadShape) : Eval Value := do
  let overloads ← closureOverloads overloads
  let closure := { name, overloads, scope := p.scope, location := p.cursor }
  Eval.new (.function { name, isMacro, body := .interpreted closure })

/-- `(fn name? [params] body…)` -/
def evalFunction (p : WalkPlace) (f : Form) : Eval Value := do
  let shape ← Eval.ofExcept (Shape.function f)
  let name ← shape.name.mapM Eval.intern
  newClosure p name false shape.overloads

/-- `(def name value?)` -/
def evalDefinition (w : Walker) (p : WalkPlace) (f : Form) : Eval Value := do
  let (name, value) ← Eval.ofExcept (Shape.definition f)
  let v ←
    match value with
    | some value => w.value p value
    | none => pure .nil
  let symbol ← Eval.intern name
  Eval.defineGlobal symbol v
  return .symbol symbol

/-- `(defmacro name [params] body…)` -/
def evalMacroDefinition (p : WalkPlace) (f : Form) : Eval Value := do
  let (name, overloads) ← Eval.ofExcept (Shape.macroDefinition f)
  let symbol ← Eval.intern name
  let v ← newClosure p (some symbol) true overloads
  Eval.defineGlobal symbol v
  return .symbol symbol

/-- What a collection during cleanup has to keep. -/
def heldValues : Except Fault Outcome → List Value
  | .ok o => o.values
  | .error f => f.payload.toList

/-- Whether an outcome is a failure that ends the session. -/
def isFatal : Except Fault Outcome → Bool
  | .ok _ => false
  | .error f => f.isFatal

/-- The body of a `try`, where the handler deals with a failure that can be caught. -/
def handled (w : Walker) (p : WalkPlace) (handler : Option (String × List Form)) (forms : List Form) :
    Eval Outcome := do
  let depth := (← get).callDepth
  match ← Eval.attempt (w.body p forms), handler with
  | .ok o, _ => return o
  | .error f, none => Eval.fail f
  | .error f, some (name, forms) =>
    if f.isFatal then Eval.fail f
    else do
      let v ← Eval.caught f
      Eval.setCallDepth depth
      let scope ← Eval.openScope p.scope
      Eval.define scope (← Eval.intern name) v
      -- A failure of the handler replaces the one it handles.
      w.body (p.inScope scope) forms

/-- Run `x` and then a cleanup, unless the session has ended. -/
def cleanedUp (w : Walker) (p : WalkPlace) (cleanup : List Form) (x : Eval Outcome) :
    Eval Outcome := do
  let result ← Eval.attempt x
  if isFatal result then Eval.ofExcept result
  else do
    let _ ← w.body (p.holding (heldValues result)) cleanup
    -- A failure of the cleanup has left already; its value counts for nothing.
    Eval.ofExcept result

/-- `(try body… (catch Class name handler…) (finally cleanup…))` -/
def evalAttempt (w : Walker) (p : WalkPlace) (f : Form) : Eval Outcome := do
  let shape ← Eval.ofExcept (Shape.attempt f)
  let x := w.handled p shape.handlers.head? shape.body
  match shape.cleanup with
  | some cleanup => w.cleanedUp p cleanup x
  | none => x

/-- Evaluate the special form `f`. -/
def evalSpecial (w : Walker) (p : WalkPlace) (kind : SpecialForm) (f : Form) : Eval Outcome := do
  let args := f.items.drop 1
  let misplaced := Eval.fail (malformed (f.headSymbol?.getD "") .misplaced p.cursor)
  match kind with
  | .quote => return .value (← Eval.valueOfForm (args.head?.getD default))
  | .conditional =>
    match args with
    | test :: branches =>
      let branch := if (← w.value p test).isTruthy then branches.head? else branches[1]?
      match branch with
      | some g => w.eval p g
      | none => return .value .nil
    | [] => misplaced
  | .sequence => w.body p args
  | .letBinding => w.evalLet p f
  | .loop => w.evalLoop p f
  | .recur => return .recur (← w.values p args)
  | .function => return .value (← evalFunction p f)
  | .definition => return .value (← w.evalDefinition p f)
  | .macroDefinition => return .value (← evalMacroDefinition p f)
  | .raise => do
    let payload ← w.value p (args.head?.getD default)
    Eval.raiseAt p.cursor payload
  | .attempt => w.evalAttempt p f
  | .template => misplaced
  | .handler => misplaced
  | .cleanup => misplaced

end TwinLisp.Walker
