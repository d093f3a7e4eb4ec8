import TwinLisp.Engine.Basic
import TwinLisp.Report.Excerpt

/-!
# Evaluating files

A file is evaluated if its name has one of the endings of source files. A failure is shown with the
line it is blamed on.

## Main definitions

* `extension?` is the ending of a path.
* `Script.run` evaluates a file.
-/

namespace TwinLisp

/-- Something to write: to the output, and to the output for failures. -/
structure Reply where
  /-- The text for the output. -/
  out : String
  /-- The text for the output for failures. -/
  err : String

/-- Why a computation stopped, shown in the source that was evaluated. -/
def Stop.report (stop : Stop) (source origin : String) : String :=
  match stop with
  | .fault f => f.report source origin
  | .outOfFuel => origin ++ ": out of steps"

namespace Script

/-- The name of the file at a path. A path that ends by going up names no file. -/
def fileName? (path : String) : Option String :=
  let parts := (path.splitOn "/").filter fun part => part != "" && part != "."
  parts.getLast?.filter (· != "..")

/-- The ending of a path: what follows the last point in the name of the file. A point at the
beginning of the name does not count. -/
def extension? (path : String) : Option String :=
  match (fileName? path).map fun name => (name.splitOn ".").reverse with
  | some (ending :: part :: parts) => if part == "" && parts.isEmpty then none else some ending
  | _ => none

/-- The endings of source files. -/
def extensions : List String := ["clj", "cljc"]

/-- Why a path cannot be that of a source file, if it cannot. -/
def refusal? (path : String) : Option String :=
  match extension? path with
  | some ending =>
    if extensions.contains ending then none
    else some s!"Error: unsupported file extension '.{ending}' for '{path}'"
  | none => some s!"Error: file '{path}' has no extension (expected .clj or .cljc)"

/-- Evaluate a source file with the given contents, or report why there are none. The result is what
has been printed, and the failure if there is one. -/
def run (e : Engine) (fuel : Nat) (path : String) (contents : Except String String) :
    String × Option String × Engine :=
  match refusal? path, contents with
  | some message, _ => ("", some message, e)
  | none, .error reason => ("", some s!"Error reading '{path}': {reason}", e)
  | none, .ok source =>
    let (made, e) := e.evaluate fuel source
    let (printed, e) := e.takeOutput
    match made with
    | .ok _ => (printed, none, e)
    | .error stop => (printed, some (stop.report source path), e)

end Script

end TwinLisp
