import TwinLisp.Library.Dispatch

/-!
# Calling native functions

A native function is either a built-in or a function that the host registered. Host functions take a
fixed number of arguments, and a failure inside one is reported as a failure of that function, unless
it ends the session or is such a report already.

No native function is interrupted by a collection, nor is what it calls.

## Main definitions

* `HostFunction` and `HostFunction.call`.
* `Eval.runNative` runs either kind.
-/

namespace TwinLisp

/-- A function that the host provides. -/
structure HostFunction where
  /-- The name under which it was registered. -/
  name : String
  /-- The number of arguments that it takes. -/
  arity : Nat
  /-- What it does with that many arguments. -/
  run : List Value → Eval Value

/-- The functions that a host registered, in order. -/
abbrev HostTable := Array HostFunction

/-- A way to run native functions, which may call functions themselves. -/
abbrev NativeRunner := Caller → Native → List Value → Eval Value

namespace HostFunction

/-- Report a failure inside the host function `name`. The location stays, a thrown value does not. -/
def failure (name : String) (f : Fault) : Fault :=
  if f.isFatal || f.kind == .hostCallFailure then f
  else
    let report := Fault.of (.hostFailed name f.message)
    match f.location with
    | some l => report.located l
    | none => report

/-- Call a host function. -/
def call (h : HostFunction) (args : List Value) : Eval Value :=
  if args.length != h.arity then Eval.failWith (.arity h.name (.exactly h.arity) args.length)
  else Eval.mapFault (failure h.name) (h.run args)

end HostFunction

namespace Eval

/-- Run a native function with the given functions of the host. -/
def runNative (hosts : HostTable) : NativeRunner := fun call n args =>
  withoutCollection
    (match n with
    | .builtin b => Library.run call b args
    | .host i =>
      match hosts[i]? with
      | some h => h.call args
      | none => failWith (.notCallable Kind.function.name))

/-- The function that a value is, for a call. -/
def callable (v : Value) : Eval Function := do
  match ← function? v with
  | some f => return f
  | none => failWith (.notCallable v.typeName)

/-- The name of a function in messages. -/
def calleeName (name : Option Symbol) : Eval String :=
  match name with
  | some symbol => nameOf symbol
  | none => pure "fn"

end Eval

end TwinLisp
