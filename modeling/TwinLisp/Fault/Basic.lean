import TwinLisp.Fault.Cause
import TwinLisp.Syntax.Location

/-!
# Failures

A failure is a cause, the location it is blamed on, and the value that was thrown if evaluated code
raised it. The location is found out on the way: whoever knows a place to blame offers it, and the
first offer that is a known location stays.

## Main statements

* `Fault.orAt_orAt`: of two offers the first known one wins.
* `Fault.isFatal_orAt`: blaming does not change what a failure is.
-/

namespace TwinLisp

/-- A failure. -/
structure Fault where
  /-- Why. -/
  cause : Cause
  /-- The location to blame, as far as one is known. -/
  location : Option Location
  /-- The thrown value. It is only good until the next collection unless it is pinned. -/
  payload : Option Value
  deriving DecidableEq

namespace Fault

/-- A failure that nothing is blamed for yet. -/
def of (cause : Cause) : Fault := ⟨cause, none, none⟩

/-- Blame `l` if it is known, in place of whatever was blamed before. -/
def located (l : Location) (f : Fault) : Fault :=
  if l.isKnown then { f with location := some l } else f

/-- Blame `l` if it is known and nothing was blamed before. -/
def orAt (l : Location) (f : Fault) : Fault :=
  if f.location.isNone && l.isKnown then { f with location := some l } else f

/-- The kind of failure. -/
def kind (f : Fault) : FaultKind := f.cause.kind

/-- The wording of the failure, without its location. -/
def message (f : Fault) : String := f.cause.message

/-- Whether the failure ends the session. -/
def isFatal (f : Fault) : Bool := f.kind.isFatal

/-- The wording of the failure with its location. -/
def text (f : Fault) : String :=
  match f.location with
  | some l => if l.isKnown then f.message ++ " (at " ++ l.text ++ ")" else f.message
  | none => f.message

/-- A reading failure as a failure. -/
def ofReadError (e : ReadError) : Fault := (of (.unreadable e.cause)).located e.location

@[simp] theorem isFatal_orAt (l : Location) (f : Fault) : (f.orAt l).isFatal = f.isFatal := by
  unfold orAt; split <;> rfl

@[simp] theorem message_orAt (l : Location) (f : Fault) : (f.orAt l).message = f.message := by
  unfold orAt; split <;> rfl

@[simp] theorem payload_orAt (l : Location) (f : Fault) : (f.orAt l).payload = f.payload := by
  unfold orAt; split <;> rfl

theorem orAt_orAt (l m : Location) (f : Fault) : (f.orAt l).orAt m = f.orAt (l.orElse m) := by
  unfold orAt Location.orElse
  by_cases hf : f.location.isNone = true <;> by_cases hl : l.isKnown = true <;> simp [hf, hl]

end Fault

end TwinLisp
