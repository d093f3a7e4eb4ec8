import TwinLisp.Engine.Backend
import TwinLisp.Session.Basic

/-!
# Requests

What the arguments of the command line ask for. Asking for the version wins over asking for help, and
either wins over everything else, wherever it stands. Of several backends the last one counts.
-/

namespace TwinLisp

/-- The program's name and version. -/
def programVersion : String := "cinder v0.1.0"

/-- How the command line is used. -/
def usage : String := "\n".intercalate [
  "Usage: cinder [OPTIONS] [FILE...]",
  "",
  "Evaluates each FILE in order, or starts a REPL when none are given.",
  "",
  "Options:",
  "  --vm          Run on the bytecode VM",
  "  --tree        Run on the tree-walking interpreter (default)",
  "  --stress-gc   Collect garbage at every safe point",
  "  -v, --version Print the version",
  "  -h, --help    Print this help"]

/-- How to evaluate, and what. -/
structure RunOptions where
  /-- The backend to use. -/
  backend : Backend
  /-- The limits to keep. -/
  limits : Limits
  /-- The files to evaluate. -/
  files : List String

/-- What the command line is asked to do. -/
inductive Request where
  /-- Show the version. -/
  | version
  /-- Show how the command line is used. -/
  | help
  /-- Evaluate files, or whatever is typed in if there are none. -/
  | run (options : RunOptions)
  /-- Something that cannot be done because there is no such option. -/
  | unknownOption (option : String)

namespace Request

/-- What one argument adds. -/
def readArgument (o : RunOptions) (argument : String) : Except String RunOptions :=
  if argument == "--vm" then .ok { o with backend := .machine }
  else if argument == "--tree" then .ok { o with backend := .treeWalk }
  else if argument == "--stress-gc" then .ok { o with limits := { o.limits with alwaysCollect := true } }
  else if argument.startsWith "-" then .error argument
  else .ok { o with files := o.files ++ [argument] }

/-- What some arguments ask for. -/
def ofArguments (arguments : List String) : Request :=
  if arguments.contains "--version" || arguments.contains "-v" then .version
  else if arguments.contains "--help" || arguments.contains "-h" then .help
  else
    match arguments.foldlM readArgument ⟨.treeWalk, {}, []⟩ with
    | .ok options => .run options
    | .error option => .unknownOption option

end Request

end TwinLisp
