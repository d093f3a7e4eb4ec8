import TwinLisp.Engine.Backend
import TwinLisp.Machine.Run
import TwinLisp.Special.Check
import TwinLisp.Syntax.Reader
import TwinLisp.TreeWalk.Eval

/-!
# Evaluation of programs

A top-level form is evaluated in three stages: its macro calls are expanded, the result is checked,
and what passes is run by the backend. A top-level `do` is taken apart first, so that a macro defined
by one of its forms is there for the forms after it.

Evaluation leaves the session ready for the next form, however it ends.

## Main definitions

* `Evaluator` is a backend together with what it needs.
* `Evaluator.evaluate` evaluates a form, and `Evaluator.evaluateText` a whole text.
* `Evaluator.apply` calls a function from outside.
-/

namespace TwinLisp

namespace Session

/-- Begin the evaluation of a top-level form. The outermost one opens the time during which every
object that is put into code stays. -/
def openTopLevel (s : Session) : Session :=
  let heap := if s.nesting == 0 then s.heap.openEmbedding else s.heap
  { s with heap, nesting := s.nesting + 1 }

/-- End the evaluation of a top-level form. No call is in progress then. -/
def closeTopLevel (s : Session) : Session :=
  let nesting := s.nesting - 1
  let heap := if nesting == 0 then s.heap.closeEmbedding else s.heap
  { s with heap, nesting, callDepth := 0 }

end Session

/-- A backend with a way to run native functions, and how many steps it may take. -/
structure Evaluator where
  /-- The backend. -/
  backend : Backend
  /-- The way to run native functions. -/
  natives : NativeRunner
  /-- The number of steps. -/
  fuel : Nat

namespace Evaluator

/-- Call a function value. -/
def call (e : Evaluator) : Caller :=
  match e.backend with
  | .treeWalk => TreeWalk.call e.natives e.fuel
  | .machine => Machine.caller e.natives e.fuel

/-- Run a form that is expanded and checked. -/
def run (e : Evaluator) (f : Form) : Eval Value :=
  match e.backend with
  | .treeWalk => TreeWalk.run e.natives e.fuel f
  | .machine => Machine.program e.natives e.fuel f

/-- Evaluate forms in order with `evaluate`; the result is that of the last one. -/
def lastOf (evaluate : Form → Eval Value) (fs : List Form) : Eval Value :=
  fs.foldlM (fun _ f => evaluate f) .nil

/-- Evaluate a form in which at most `depth` top-level `do` forms are nested. -/
def evaluateWithin (e : Evaluator) : Nat → Form → Eval Value
  | 0, _ => throw .outOfFuel
  | depth + 1, f => do
    Eval.checkAlive
    Eval.maybeCollect fun _ => []
    modify Session.openTopLevel
    Eval.blaming f.location (Eval.always Session.closeTopLevel (do
      let head ← Eval.expandHead e.call f
      if head.isCallTo "do" then lastOf (evaluateWithin e depth) (head.items.drop 1)
      else
        let expanded ← Eval.expand e.call head
        Eval.ofExcept (check (← get).limits.formDepth expanded)
        e.run expanded))

/-- Evaluate a top-level form. -/
def evaluate (e : Evaluator) (f : Form) : Eval Value := e.evaluateWithin e.fuel f

/-- The forms of a text. -/
def forms (source : String) : Eval (List Form) :=
  match readAll source with
  | .ok fs => pure fs
  | .error failure => Eval.fail (.ofReadError failure)

/-- Evaluate all forms of a text. Nothing is evaluated unless the whole text can be read. -/
def evaluateText (e : Evaluator) (source : String) : Eval Value := do
  lastOf e.evaluate (← forms source)

/-- Evaluate the text of a file, or report why there is none. -/
def evaluateFile (e : Evaluator) (path : String) (contents : Except String String) : Eval Value :=
  match contents with
  | .ok source => e.evaluateText source
  | .error reason => Eval.failWith (.unreadableFile path reason)

/-- Call a function value from outside of any evaluation. -/
def apply (e : Evaluator) (callee : Value) (args : List Value) : Eval Value := do
  Eval.checkAlive
  Eval.always (fun s => { s with callDepth := 0 }) (e.call callee args)

/-- Call the function that is bound to a name at the root. -/
def applyNamed (e : Evaluator) (name : String) (args : List Value) : Eval Value := do
  let s ← get
  match (s.symbols.find? name).bind s.global? with
  | some callee => e.apply callee args
  | none => Eval.failWith (.unresolved name)

end Evaluator

end TwinLisp
