import TwinLisp.Expansion.Basic
import TwinLisp.Library.Arguments
import TwinLisp.Session.Printer

/-!
# Built-ins on text, failures and the session

Printing, the maps that describe failures, fresh names, heap counts and macro expansion on request.
-/

namespace TwinLisp.Library

/-! ### Text -/

/-- The texts of some values with blanks between them. -/
def joined (readably : Bool) (args : List Value) : Eval String := do
  let s ← get
  return spaced (args.map (s.text readably))

/-- The display texts of all arguments in one, without those of `nil`. -/
def str (args : List Value) : Eval Value := do
  let s ← get
  Eval.newString (String.join ((args.filter (· != .nil)).map (s.text false)))

/-- The readable texts of all arguments. -/
def prStr (args : List Value) : Eval Value := do Eval.newString (← joined true args)

/-- Print all arguments and then `ending`. -/
def print (readably : Bool) (ending : String) (args : List Value) : Eval Value := do
  Eval.write ((← joined readably args) ++ ending)
  return .nil

/-! ### Failures -/

/-- A map that describes a failure. -/
def exInfo : List Value → Eval Value
  | [message, data] =>
    match message, data with
    | .ref .str _, .nil | .ref .str _, .ref .map _ => do
      let typeKey ← Eval.keyword "type"
      let type ← Eval.keyword "ex-info"
      let messageKey ← Eval.keyword "message"
      let dataKey ← Eval.keyword "data"
      Eval.newMap [(typeKey, type), (messageKey, message), (dataKey, data)]
    | .ref .str _, _ => refuse .exInfo 1 "map" data
    | _, _ => refuse .exInfo 0 "string" message
  | args => refuseCount .exInfo (.exactly 2) args

/-- What a map holds under a keyword; `nil` for anything but a map. -/
def field (b : Builtin) (name : String) : List Value → Eval Value
  | [.ref .map a] => do
    let key ← Eval.keyword name
    let m := (← Eval.map? (.ref .map a)).getD .empty
    return (m.value? (← Eval.keyOf key)).getD .nil
  | [_] => return .nil
  | args => refuseCount b (.exactly 1) args

/-! ### The session -/

/-- The start of a fresh name. -/
def nameStart : List Value → Eval String
  | [] => return "G__"
  | [v] =>
    match v with
    | .ref .str _ => Eval.display v
    | .symbol _ => Eval.display v
    | _ => refuse .gensym 0 "string" v
  | args => refuseCount .gensym (.between 0 1) args

/-- A fresh symbol whose name starts with a given text. -/
def gensym (args : List Value) : Eval Value := do
  Eval.symbol (← Eval.generateName (← nameStart args))

/-- The counts of the heap as a map. -/
def heapStats : List Value → Eval Value
  | [] => do
    let stats := (← get).heap.stats
    let counts :=
      [("allocated", stats.allocated), ("freed", stats.freed), ("live", stats.live),
        ("collections", stats.collections)]
    let entries ← counts.mapM fun c => return (← Eval.keyword c.1, Value.int (.ofNat c.2))
    Eval.newMap entries
  | args => refuseCount .heapStats (.exactly 0) args

/-- Code expanded once, if it is a macro call. -/
def macroexpandOne (call : Caller) : List Value → Eval Value
  | [v] => do
    let form ← Eval.formOfValue v
    match ← Eval.expandOnce call form with
    | some expansion => Eval.valueOfForm expansion
    | none => return v
  | args => refuseCount .macroexpandOne (.exactly 1) args

/-- Expand a form as long as it is a macro call, at most so many times. The second part of the result
says whether it was one. -/
def expandTimes (call : Caller) : Nat → Form → Eval (Form × Bool)
  | 0, form => return (form, false)
  | n + 1, form => do
    match ← Eval.expandOnce call form with
    | some expansion => return ((← expandTimes call n expansion).1, true)
    | none => return (form, false)

/-- Code expanded as long as it is a macro call. -/
def macroexpand (call : Caller) : List Value → Eval Value
  | [v] => do
    let form ← Eval.formOfValue v
    let (expansion, isExpanded) ← expandTimes call (← get).limits.macroDepth form
    if isExpanded then Eval.valueOfForm expansion else return v
  | args => refuseCount .macroexpand (.exactly 1) args

end TwinLisp.Library
