import TwinLisp.Console.Dialog
import TwinLisp.Host.IntegerModule
import TwinLisp.Text.Lines

/-!
# The command line as a whole

What the command line writes, and the code with which it ends, as a function of its arguments, of the
files there are and of what is typed in.

## Main definitions

* `Program.open?` makes the engine that all files and the dialog share.
* `Program.run` is the whole command line.
-/

namespace TwinLisp

/-- What a run of the command line has written, and its code. -/
structure Transcript where
  /-- The output. -/
  out : String
  /-- The output for failures. -/
  err : String
  /-- The code; zero if all went well. -/
  code : Nat

namespace Program

/-- Why a computation stopped, without its source. -/
def stopText : Stop → String
  | .fault f => f.text
  | .outOfFuel => "out of steps"

/-- The engine for a run, or why there is none. -/
def open? (options : RunOptions) (fuel : Nat) : Except String Engine :=
  match Engine.create options.backend options.limits fuel with
  | .error stop => .error ("Failed to load prelude: " ++ stopText stop)
  | .ok e =>
    match e.registerAll IntegerModule.functions with
    | .error stop => .error ("Failed to register host module: " ++ stopText stop)
    | .ok e => .ok e

/-- What is said about an unknown option. -/
def refusal (option : String) : String := s!"Error: unknown option '{option}'\n\n" ++ usage

/-- Evaluate files one after the other, up to the first failure. -/
def runFiles (read : String → Except String String) (fuel : Nat) (e : Engine) (out : String) :
    List String → Transcript
  | [] => ⟨out, "", 0⟩
  | path :: paths =>
    match Script.run e fuel path (read path) with
    | (printed, none, e) => runFiles read fuel e (out ++ printed) paths
    | (printed, some message, _) => ⟨out ++ printed, message ++ "\n", 1⟩

/-- Hold a dialog about some lines. -/
def runDialog (fuel : Nat) (d : Dialog) (out err : String) : List String → Transcript
  | [] => ⟨out ++ d.prompt ++ "\n", err, 0⟩
  | line :: lines =>
    let out := out ++ d.prompt
    let (reply, d) := d.feed fuel line
    runDialog fuel d (out ++ reply.out) (err ++ reply.err) lines

/-- Run the command line with some arguments, where `read` gives the contents of files and `input` is
typed in. -/
def run (read : String → Except String String) (fuel : Nat) (arguments : List String)
    (input : String) : Transcript :=
  match Request.ofArguments arguments with
  | .version => ⟨programVersion ++ "\n", "", 0⟩
  | .help => ⟨usage ++ "\n", "", 0⟩
  | .unknownOption option => ⟨"", refusal option ++ "\n", 2⟩
  | .run options =>
    match open? options fuel with
    | .error message => ⟨"", message ++ "\n", 1⟩
    | .ok e =>
      if options.files.isEmpty then
        runDialog fuel ⟨e, ""⟩ (Dialog.banner options.backend) "" (Text.lines input)
      else runFiles read fuel e "" options.files

end Program

end TwinLisp
