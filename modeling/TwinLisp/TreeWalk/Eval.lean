import TwinLisp.TreeWalk.Special

/-!
# Walking over forms

The evaluator as a whole: literals, names, collections and calls, and the walker that runs on fuel.

## Main definitions

* `Walker.step` evaluates a form with the help of another walker.
* `walker` is the walker with a given amount of fuel: it spends one unit for every form or call that
  is nested in another, and a loop starts over no more often than there is fuel.
* `TreeWalk.run` evaluates a whole program, and `TreeWalk.call` calls a function from outside.
-/

namespace TwinLisp

namespace Walker

/-- The value of a name. -/
def resolve (p : WalkPlace) (name : String) : Eval Value := do
  let s ← get
  match (s.symbols.find? name).bind (s.scopes.lookup? p.scope) with
  | some v => return v
  | none => Eval.fail ((Fault.of (.unresolved name)).located p.cursor)

/-- The value of a leaf. -/
def evalLeaf (p : WalkPlace) : Leaf → Eval Value
  | .symbol name => resolve p name
  | d => Eval.valueOfLeaf d

/-- `(callee argument…)` -/
def evalCall (w : Walker) (p : WalkPlace) (head : Form) (args : List Form) : Eval Value := do
  let callee ← w.value p head
  let vs ← w.values (p.holding [callee]) args
  w.call
    { callee, args := vs, site := p.cursor
      locations := args.map fun a => a.location.orElse p.cursor
      held := p.held }

/-- Evaluate a form, using `w` for its parts. -/
def step (w : Walker) (p : WalkPlace) : Form → Eval Outcome
  | .leaf d l => return .value (← evalLeaf (p.within l) d)
  | .group .list [] _ => return .value (← Eval.newList [])
  | .group .list (head :: args) l =>
    let p := p.within l
    match head.symbolName?.bind SpecialForm.ofName? with
    | some kind => w.evalSpecial p kind (.list (head :: args) l)
    | none => return .value (← w.evalCall p head args)
  | .group .vector items l => return .value (← Eval.newVector (← w.values (p.within l) items))
  | .group .set items l => return .value (← Eval.newSet (← w.values (p.within l) items))
  | .group .map items l => return .value (← Eval.newMap (pairUp (← w.values (p.within l) items)))

end Walker

/-- The walker with the given amount of fuel. -/
def walker (natives : NativeRunner) : Nat → Walker
  | 0 => { eval := fun _ _ => throw .outOfFuel, call := fun _ => throw .outOfFuel, fuel := 0 }
  | fuel + 1 =>
    { eval := fun p f => (walker natives fuel).step p f
      call := fun r => (walker natives fuel).apply natives r
      fuel := fuel }

namespace TreeWalk

/-- Evaluate an expanded and checked program. -/
def run (natives : NativeRunner) (fuel : Nat) (f : Form) : Eval Value :=
  (walker natives fuel).value ⟨.unknown, Scopes.root, []⟩ f

/-- Call a function. -/
def call (natives : NativeRunner) (fuel : Nat) : Caller := (walker natives fuel).callback

end TreeWalk

end TwinLisp
