import TwinLisp.Bytecode.Compile
import TwinLisp.Library.Native
import TwinLisp.Session.Raised

/-!
# The machine

The second evaluator runs compiled code. Every call of a compiled function has a frame, and all frames
keep their operands on one stack. A frame numbers them from slot zero, which holds the function that is
called and lies at its bottom. Calls between compiled functions push frames.

A native function that calls back starts a machine of its own, on top of the operands of the machine that
waits for it. Nothing keeps code from taking off operands that lie beneath its own.

A handler remembers how high the frames, the operands and the held failures were when it was
installed, and where to go on. A failure that no handler of the machine takes leaves the machine.

## Main definitions

* `Frame`, `Handler` and `Machine`.
* `Machine.push`, `Machine.pop?` and their like work at the top of the operands.
* `Machine.roots` is what a collection has to keep for a machine.
-/

namespace TwinLisp

/-- A call of compiled code. -/
structure Frame where
  /-- The function. -/
  prototype : Prototype
  /-- Its code for the number of arguments given. -/
  code : ArityCode Prototype
  /-- The offset of the next instruction. -/
  ip : Nat
  /-- Where slot zero is among the operands. -/
  bottom : Nat
  /-- The values that the function captured. -/
  captured : Array Value
  /-- Where the call stands. -/
  site : Location
  /-- Whether the call counts as one level of nesting. -/
  isCounted : Bool

/-- What a handler does with a failure. -/
inductive HandlerKind where
  /-- Push the caught value. -/
  | catching
  /-- Hold the failure. -/
  | cleanup
  deriving DecidableEq

/-- An installed handler. -/
structure Handler where
  /-- What it does. -/
  kind : HandlerKind
  /-- The number of frames beneath the one it belongs to. -/
  callers : Nat
  /-- Where its frame goes on. -/
  target : Nat
  /-- The number of operands. -/
  operands : Nat
  /-- The number of nested calls. -/
  callDepth : Nat
  /-- The number of held failures. -/
  held : Nat

/-- A machine at work. -/
structure Machine where
  /-- The running frame. -/
  top : Frame
  /-- The frames that wait for it, the innermost first. -/
  callers : List Frame
  /-- The installed handlers, the innermost first. -/
  handlers : List Handler
  /-- Failures that wait for a cleanup to end, the latest first. -/
  held : List Fault
  /-- The operands of all frames, and beneath them those of the machines that wait for this one. -/
  operands : Array Value
  /-- How many operands there were when the machine started. -/
  floor : Nat

/-- What a step leads to. -/
inductive Progress where
  /-- The machine goes on. -/
  | running (m : Machine)
  /-- The outermost frame has returned. -/
  | finished (m : Machine) (v : Value)
  /-- Something failed. -/
  | failed (m : Machine) (f : Fault)

namespace Frame

/-- What a collection has to keep for a frame, apart from its operands. -/
def roots (f : Frame) : List Node :=
  Node.ofValues f.prototype.values ++ Node.ofValues f.captured.toList

/-- The location of the instruction last fetched. -/
def location (f : Frame) : Location := (f.code.locations[f.ip - 1]?).getD .unknown

/-- The frame of a program. -/
def ofProgram (p : Prototype) (code : ArityCode Prototype) (bottom : Nat) : Frame :=
  { prototype := p, code, ip := 0, bottom, captured := #[], site := .unknown, isCounted := false }

end Frame

namespace Machine

/-- A machine that starts with a frame that has the given slots, on top of other operands. -/
def start (operands : Array Value) (frame : Frame) (slots : Array Value) : Machine :=
  { top := frame, callers := [], handlers := [], held := [], operands := operands ++ slots
    floor := operands.size }

/-- What a collection has to keep for a machine. -/
def roots (m : Machine) : List Node :=
  Node.ofValues m.operands.toList ++ m.top.roots ++ m.callers.flatMap Frame.roots ++
    Node.ofValues (m.held.filterMap Fault.payload)

/-- The machine with other operands. -/
def withOperands (m : Machine) (operands : Array Value) : Machine := { m with operands }

/-- Push a value. -/
def push (m : Machine) (v : Value) : Machine := { m with operands := m.operands.push v }

/-- Take a value off. -/
@[inline] def pop? (m : Machine) : Option (Value × Machine) :=
  match m.operands.back? with
  | some v => some (v, { m with operands := m.operands.pop })
  | none => none

/-- Cut the operands down to `n`. -/
def shrink (m : Machine) (n : Nat) : Machine := { m with operands := m.operands.shrink n }

/-- Take the topmost `n` operands off, or all if there are fewer. -/
def drop (m : Machine) (n : Nat) : Machine := m.shrink (m.operands.size - n)

/-- The topmost `n` operands, the lowest first. -/
def topmost? (m : Machine) (n : Nat) : Option (List Value) :=
  let size := m.operands.size
  if n ≤ size then some (m.operands.extract (size - n) size).toList else none

/-- Take the topmost `n` values off, the lowest first. -/
@[inline] def popMany? (m : Machine) (n : Nat) : Option (List Value × Machine) :=
  match m.topmost? n with
  | some vs => some (vs, m.drop n)
  | none => none

/-- The operand in a slot of the running frame. -/
def slot? (m : Machine) (i : Nat) : Option Value := m.operands[m.top.bottom + i]?

/-- Go on elsewhere in the running frame. -/
def goto (m : Machine) (target : Nat) : Machine := { m with top := { m.top with ip := target } }

/-- Go on elsewhere in the running frame, relative to the next instruction. -/
def jump (m : Machine) (offset : Int) : Machine := m.goto (m.top.ip + offset).toNat

/-- Go on in a frame with the given slots. -/
def calling (m : Machine) (frame : Frame) (slots : Array Value) : Machine :=
  { m with top := frame, callers := m.top :: m.callers, operands := m.operands ++ slots }

/-- The constant at an index. -/
def constant? (m : Machine) (i : Nat) : Option Value := m.top.code.constants[i]?

/-- The call site at an index. -/
def site? (m : Machine) (i : Nat) : Option (List Location) := m.top.code.sites[i]?

end Machine

end TwinLisp
