import TwinLisp.Console.Request
import TwinLisp.Console.Script
import TwinLisp.Text.Character

/-!
# Dialogs

A dialog evaluates what is typed in, line by line. Lines are put together until they can be read:
when the text so far is unfinished, it is kept and the next line continues it. Otherwise its value or
its failure is shown, and the next line begins a new text.

Whether a text is unfinished is told by the wording of its failure.

## Main definitions

* `Dialog.prompt` is what to show before the next line.
* `Dialog.feed` is what happens on a line.
-/

namespace TwinLisp

/-- A dialog. -/
structure Dialog where
  /-- The engine that evaluates. -/
  engine : Engine
  /-- The lines that have been typed in and not been evaluated. -/
  pending : String

namespace Dialog

/-- What the dialog shows first. -/
def banner (backend : Backend) : String := programVersion ++ " (" ++ backend.name ++ ")\n"

/-- What to show before the next line. -/
def prompt (d : Dialog) : String := if d.pending.isEmpty then "user=> " else "   #_=> "

/-- Where the text of a dialog comes from. -/
def origin : String := "<repl>"

/-- Whether a wording is that of a text to which something is missing. -/
def isUnfinished (message : String) : Bool :=
  message.startsWith "Unterminated" || message.startsWith "Unexpected end of input"

/-- Whether to wait for more lines instead of showing why a computation stopped. -/
def waitsAfter : Stop → Bool
  | .fault f => isUnfinished f.message
  | .outOfFuel => false

/-- What happens on a line. -/
def feed (d : Dialog) (fuel : Nat) (line : String) : Reply × Dialog :=
  let source := d.pending ++ line ++ "\n"
  if source.toList.all Text.isBlank then (⟨"", ""⟩, ⟨d.engine, ""⟩)
  else
    let (made, e) := d.engine.evaluate fuel source
    let (printed, e) := e.takeOutput
    match made with
    | .ok v => (⟨printed ++ e.readable v ++ "\n", ""⟩, ⟨e, ""⟩)
    | .error stop =>
      if waitsAfter stop then (⟨printed, ""⟩, ⟨e, source⟩)
      else (⟨printed, stop.report source origin ++ "\n"⟩, ⟨e, ""⟩)

end Dialog

end TwinLisp
