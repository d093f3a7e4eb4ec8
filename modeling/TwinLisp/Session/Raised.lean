import TwinLisp.Session.Data
import TwinLisp.Session.Printer

/-!
# Raising and catching

Any value can be raised. The failure that results is worded by the `:message` of the value, if the
value is a map that has one, and by its readable text otherwise.

A handler gets the value that was raised, or a map of `:type` and `:message` for a failure that the
system noticed itself.
-/

namespace TwinLisp

/-- The wording of a raised value. -/
def Session.raisedMessage (s : Session) (payload : Value) : String :=
  let stated : Option Value :=
    match s.symbols.find? "message", payload, s.heap.objectOf? payload with
    | some name, .ref .map _, some (.map m) => m.value? (.ofKeyword name)
    | _, _, _ => none
  match stated with
  | some v => s.text false v
  | none => s.text true payload

namespace Eval

/-- Raise a value at a location. -/
def raiseAt {α : Type} (l : Location) (payload : Value) : Eval α := do
  let message := (← get).raisedMessage payload
  fail (({ Fault.of (.raised message) with payload := some payload } : Fault).located l)

/-- What a handler for `f` gets. -/
def caught (f : Fault) : Eval Value := do
  match f.payload with
  | some v => return v
  | none =>
    let typeKey ← keyword "type"
    let type ← keyword f.kind.name
    let messageKey ← keyword "message"
    let message ← newString f.message
    newMap [(typeKey, type), (messageKey, message)]

end Eval

end TwinLisp
