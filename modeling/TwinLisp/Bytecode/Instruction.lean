import TwinLisp.Number.Operator
import TwinLisp.Value.Basic

/-!
# Instructions

The instructions of the stack machine. A frame's operand stack is numbered from its bottom: slot zero
holds the function being run, the parameters follow, then `let` locals and temporaries. Jump offsets
count from the instruction after the jump.

## Main definitions

* `Instruction.text` is the instruction as listings show it.
* `Capture` says where a new closure takes a captured value from.
-/

namespace TwinLisp

/-- An instruction of the stack machine. -/
inductive Instruction where
  /-- Push the constant with this index. -/
  | const (index : Nat)
  | pushNil
  | pushTrue
  | pushFalse
  | pop
  /-- Pop the top value, drop this many beneath it, push it back. -/
  | endScope (count : Nat)
  /-- Cut the frame's stack back to this height. -/
  | truncate (height : Nat)
  | loadLocal (slot : Nat)
  /-- Pop into a slot. -/
  | storeLocal (slot : Nat)
  | loadCapture (index : Nat)
  /-- Push the root binding of the symbol constant with this index. -/
  | loadGlobal (index : Nat)
  /-- Pop a value, bind it at the root, push the symbol. -/
  | defGlobal (index : Nat)
  | jump (offset : Int)
  | popJumpIfFalse (offset : Int)
  /-- Call the function that lies this many values below the top; `site` indexes the table of call
  sites. -/
  | call (argc site : Nat)
  | ret
  /-- Raise the popped value. -/
  | raise
  /-- Install a handler that pushes the caught value and continues at the target. -/
  | pushCatch (offset : Int)
  /-- Install a handler that holds the error while the cleanup at the target runs. -/
  | pushFinally (offset : Int)
  | popHandler
  /-- Raise the innermost held error again. -/
  | rethrow
  /-- Make a closure of the prototype with this index. -/
  | closure (index : Nat)
  /-- As `closure`, flagged as a macro. -/
  | macroClosure (index : Nat)
  | arith (op : ArithOp) (site : Nat)
  | compare (op : CompareOp) (site : Nat)
  | buildList (count : Nat)
  | buildVector (count : Nat)
  /-- Build a map of alternating keys and values. -/
  | buildMap (count : Nat)
  | buildSet (count : Nat)
  deriving DecidableEq

/-- The instruction as listings show it. -/
def Instruction.text : Instruction → String
  | .const i => s!"Const({i})"
  | .pushNil => "Nil"
  | .pushTrue => "True"
  | .pushFalse => "False"
  | .pop => "Pop"
  | .endScope n => s!"EndScope({n})"
  | .truncate n => s!"Truncate({n})"
  | .loadLocal n => s!"LoadLocal({n})"
  | .storeLocal n => s!"StoreLocal({n})"
  | .loadCapture n => s!"LoadCapture({n})"
  | .loadGlobal n => s!"LoadGlobal({n})"
  | .defGlobal n => s!"DefGlobal({n})"
  | .jump d => s!"Jump({d})"
  | .popJumpIfFalse d => s!"PopJumpIfFalse({d})"
  | .call argc site => s!"Call \x7b argc: {argc}, site: {site} \x7d"
  | .ret => "Return"
  | .raise => "Throw"
  | .pushCatch d => s!"PushCatch({d})"
  | .pushFinally d => s!"PushFinally({d})"
  | .popHandler => "PopHandler"
  | .rethrow => "Rethrow"
  | .closure n => s!"Closure({n})"
  | .macroClosure n => s!"Macro({n})"
  | .arith op site => s!"Arith \x7b op: {op.label}, site: {site} \x7d"
  | .compare op site => s!"Compare \x7b op: {op.label}, site: {site} \x7d"
  | .buildList n => s!"BuildList({n})"
  | .buildVector n => s!"BuildVector({n})"
  | .buildMap n => s!"BuildMap({n})"
  | .buildSet n => s!"BuildSet({n})"

/-- Where a new closure takes a captured value from. -/
inductive Capture where
  /-- A slot of the frame that makes the closure. -/
  | fromSlot (slot : Nat)
  /-- A captured value of the closure that the frame runs. -/
  | fromCapture (index : Nat)
  deriving DecidableEq

/-- The capture as listings show it. -/
def Capture.text : Capture → String
  | .fromSlot n => s!"Local({n})"
  | .fromCapture n => s!"Enclosing({n})"

end TwinLisp
