import TwinLisp.Engine.Prelude
import TwinLisp.Host.Conversion

/-!
# Engines

What a host program works with: a session together with the backend that evaluates in it and the
functions that the host has registered. Operations that evaluate something are granted a number of
steps.

A value that an engine hands out is good until the next evaluation may collect. Binding it to a name
or pinning it keeps it longer.

## Main definitions

* `Engine.create` makes an engine, ready for use.
* `Engine.perform` runs a computation in the session of an engine. The computations that hosts need
  are those of `Evaluator` and the ones in this file.
-/

namespace TwinLisp

/-- A session with a backend and host functions. -/
structure Engine where
  /-- The backend. -/
  backend : Backend
  /-- The functions that the host has registered. -/
  hosts : HostTable
  /-- The session. -/
  session : Session

namespace Eval

/-- Keep a value until it is unpinned. -/
def pin (v : Value) : Eval Nat :=
  modifyGet fun s =>
    (s.nextPin, { s with pins := s.pins.insert s.nextPin v, nextPin := s.nextPin + 1 })

/-- Take a pin back. The result is the value that it kept, if it kept one. -/
def unpin (pin : Nat) : Eval (Option Value) :=
  modifyGet fun s => (s.pins[pin]?, { s with pins := s.pins.erase pin })

/-- The root binding of a name. -/
def binding? (name : String) : Eval (Option Value) := do
  let s ← get
  return (s.symbols.find? name).bind s.global?

/-- Bind a name at the root to a host value. -/
def bind (name : String) (t : HostType) (x : t.Carrier) : Eval Unit := do
  let v ← t.toValue x
  defineGlobal (← intern name) v

/-- Collect now. The result is the number of objects reclaimed. -/
def collectGarbage : Eval Nat :=
  modifyGet fun s =>
    let (s, freed) := s.collectGarbage []
    (freed, s)

end Eval

namespace Engine

/-- The evaluator of an engine. -/
def evaluator (e : Engine) (fuel : Nat) : Evaluator := ⟨e.backend, Eval.runNative e.hosts, fuel⟩

/-- Run a computation in the session of an engine. -/
def perform {α : Type} (e : Engine) (x : Eval α) : Except Stop α × Engine :=
  match x e.session with
  | .ok a session => (.ok a, { e with session })
  | .error stop session => (.error stop, { e with session })

/-- Make an engine. -/
def create (backend : Backend) (limits : Limits) (fuel : Nat) (prelude : String := Prelude.source) :
    Except Stop Engine :=
  let e : Engine := ⟨backend, #[], .fresh limits⟩
  match e.perform ((e.evaluator fuel).start prelude) with
  | (.ok _, e) => .ok e
  | (.error stop, _) => .error stop

/-- Register a host function under its name. -/
def register (e : Engine) (h : HostFunction) : Except Stop Engine :=
  match e.perform (Eval.defineNative h.name (.host e.hosts.size)) with
  | (.ok _, e) => .ok { e with hosts := e.hosts.push h }
  | (.error stop, _) => .error stop

/-- Register host functions in order. -/
def registerAll (e : Engine) (hs : List HostFunction) : Except Stop Engine := hs.foldlM register e

/-- Evaluate a text. -/
def evaluate (e : Engine) (fuel : Nat) (source : String) : Except Stop Value × Engine :=
  e.perform ((e.evaluator fuel).evaluateText source)

/-- Evaluate a text and write the result. -/
def evaluateToText (e : Engine) (fuel : Nat) (source : String) : Except Stop String × Engine :=
  e.perform do Eval.readable (← (e.evaluator fuel).evaluateText source)

/-- Evaluate a text and convert the result. -/
def evaluateAs (e : Engine) (fuel : Nat) (t : HostType) (source : String) :
    Except Stop t.Carrier × Engine :=
  e.perform do t.ofValue (← (e.evaluator fuel).evaluateText source)

/-- The text of a value that can be read back, as far as there is one. -/
def readable (e : Engine) (v : Value) : String := e.session.text true v

/-- What has been printed since the last time. -/
def takeOutput (e : Engine) : String × Engine :=
  (e.session.output, { e with session := { e.session with output := "" } })

end Engine

end TwinLisp
