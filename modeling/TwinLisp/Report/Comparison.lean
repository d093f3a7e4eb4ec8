import TwinLisp.Engine.Basic
import TwinLisp.Text.Quoted

/-!
# Comparing the backends

A program is run by both backends, each in a session of its own, and what comes out is compared.
Values are compared by the text that can be read back, failures by their kind and the location they
are blamed on.

## Main definitions

* `ProgramOutcome` is what comes out of a program, and `ProgramOutcome.agrees` compares two of them.
* `Comparison.run` runs a program on both backends.
-/

namespace TwinLisp

/-- What comes out of a program. -/
inductive ProgramOutcome where
  /-- The text of a value. -/
  | value (text : String)
  /-- A failure. -/
  | failure (kind : FaultKind) (location : Option Location) (message : String)
  /-- The granted number of steps is used up. -/
  | unfinished
  deriving DecidableEq

namespace ProgramOutcome

/-- The outcome of a computation of a text. -/
def ofResult : Except Stop String → ProgramOutcome
  | .ok text => .value text
  | .error (.fault f) => .failure f.kind f.location f.message
  | .error .outOfFuel => .unfinished

/-- Whether two outcomes are the same value, or failures of the same kind at the same location. -/
def agrees : ProgramOutcome → ProgramOutcome → Bool
  | .value a, .value b => a == b
  | .failure k l _, .failure k' l' _ => k == k' && l == l'
  | _, _ => false

/-- The outcome in words. -/
def text : ProgramOutcome → String
  | .value text => text
  | .failure kind (some l) message => kind.title ++ " at " ++ l.text ++ ": " ++ message
  | .failure kind none message => kind.title ++ ": " ++ message
  | .unfinished => "unfinished"

end ProgramOutcome

/-- What each backend made of a program. -/
structure Comparison where
  /-- The program. -/
  source : String
  /-- What came out of walking over its forms. -/
  treeWalk : ProgramOutcome
  /-- What came out of the stack machine. -/
  machine : ProgramOutcome

namespace Comparison

/-- Run `setup` and then `source` in a new session. A failure of `setup` is the outcome. -/
def runOn (backend : Backend) (limits : Limits) (fuel : Nat) (setup source : String) : ProgramOutcome :=
  .ofResult do
    let e ← Engine.create backend limits fuel
    let (made, e) := e.evaluate fuel setup
    let _ ← made
    (e.evaluateToText fuel source).1

/-- Run a program on both backends. -/
def run (limits : Limits) (fuel : Nat) (setup source : String) : Comparison where
  source := source
  treeWalk := runOn .treeWalk limits fuel setup source
  machine := runOn .machine limits fuel setup source

/-- The outcome that both backends agree on. -/
def agreed? (c : Comparison) : Option ProgramOutcome :=
  if c.treeWalk.agrees c.machine then some c.treeWalk else none

/-- The disagreement in words. -/
def divergence (c : Comparison) : String :=
  "backends diverge on " ++ Text.visible c.source ++ "\n  tree-walk: " ++ c.treeWalk.text ++
    "\n  vm:        " ++ c.machine.text

end Comparison

end TwinLisp
