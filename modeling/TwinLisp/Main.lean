import TwinLisp.Console.Program

/-!
# Running the command line

The arguments, files and lines of the real world, and what is written to it. Everything else is
decided by `Program`, `Script` and `Dialog`.
-/

namespace TwinLisp

/-- How many steps an evaluation may take: more than anyone will wait for. -/
def patience : Nat := Nat.pow 10 18

/-- The contents of a file, or why it cannot be read. -/
def readSource (path : String) : IO (Except String String) := do
  match ← (IO.FS.readFile path).toBaseIO with
  | .ok source => return .ok source
  | .error (.noFileOrDirectory _ _ _) => return .error "No such file or directory (os error 2)"
  | .error failure => return .error (toString failure)

/-- Evaluate files one after the other, up to the first failure. -/
def runFiles (e : Engine) : List String → IO UInt32
  | [] => return 0
  | path :: paths => do
    match Script.run e patience path (← readSource path) with
    | (printed, none, e) =>
      IO.print printed
      runFiles e paths
    | (printed, some message, _) =>
      IO.print printed
      IO.eprintln message
      return 1

/-- Hold a dialog until the input ends. -/
partial def runDialog (d : Dialog) : IO UInt32 := do
  let stdin ← IO.getStdin
  let stdout ← IO.getStdout
  IO.print d.prompt
  stdout.flush
  match Text.lines (← stdin.getLine) with
  | [] =>
    IO.println ""
    return 0
  | line :: _ =>
    let (reply, d) := d.feed patience line
    IO.print reply.out
    IO.eprint reply.err
    runDialog d

end TwinLisp

open TwinLisp in
/-- The command line. -/
def main (arguments : List String) : IO UInt32 := do
  match Request.ofArguments arguments with
  | .version =>
    IO.println programVersion
    return 0
  | .help =>
    IO.println usage
    return 0
  | .unknownOption option =>
    IO.eprintln (Program.refusal option)
    return 2
  | .run options =>
    match Program.open? options patience with
    | .error message =>
      IO.eprintln message
      return 1
    | .ok e =>
      if options.files.isEmpty then
        IO.print (Dialog.banner options.backend)
        runDialog ⟨e, ""⟩
      else runFiles e options.files
