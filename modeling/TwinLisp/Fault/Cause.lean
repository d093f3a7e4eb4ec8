import TwinLisp.Fault.Malformation
import TwinLisp.Syntax.ReadError
import TwinLisp.Value.Arity
import TwinLisp.Value.Basic

/-!
# Causes of failure

Everything that can go wrong while code is read, expanded, compiled or run. Each cause belongs to one
of twelve kinds, which is what evaluated code can ask about, and has one wording.

## Main definitions

* `FaultKind` with the names under which evaluated code and reports know it.
* `Defect` lists what only a mistake in the system itself can bring about, with one exception: a
  value that was kept without being pinned may refer to an object that is gone.
* `Cause`, `Cause.kind` and `Cause.message`.
-/

namespace TwinLisp

/-- The kinds of failure. -/
inductive FaultKind where
  | unresolvedSymbol
  | arityMismatch
  | typeMismatch
  | arithmeticError
  | macroExpansionDepthExceeded
  | heapExhausted
  | hostCallFailure
  | userRaised
  | invalidSyntax
  | indexOutOfBounds
  | stackOverflow
  | internal
  deriving DecidableEq

namespace FaultKind

/-- The name of the kind in evaluated code. -/
def name : FaultKind → String
  | .unresolvedSymbol => "unresolved-symbol"
  | .arityMismatch => "arity-mismatch"
  | .typeMismatch => "type-mismatch"
  | .arithmeticError => "arithmetic-error"
  | .macroExpansionDepthExceeded => "macro-expansion-depth-exceeded"
  | .heapExhausted => "heap-exhausted"
  | .hostCallFailure => "host-call-failure"
  | .userRaised => "user-raised"
  | .invalidSyntax => "invalid-syntax"
  | .indexOutOfBounds => "index-out-of-bounds"
  | .stackOverflow => "stack-overflow"
  | .internal => "internal"

/-- The name of the kind in comparisons of two evaluators. -/
def title : FaultKind → String
  | .unresolvedSymbol => "UnresolvedSymbol"
  | .arityMismatch => "ArityMismatch"
  | .typeMismatch => "TypeMismatch"
  | .arithmeticError => "ArithmeticError"
  | .macroExpansionDepthExceeded => "MacroExpansionDepthExceeded"
  | .heapExhausted => "HeapExhausted"
  | .hostCallFailure => "HostCallFailure"
  | .userRaised => "UserRaised"
  | .invalidSyntax => "InvalidSyntax"
  | .indexOutOfBounds => "IndexOutOfBounds"
  | .stackOverflow => "StackOverflow"
  | .internal => "Internal"

/-- Whether a failure of this kind ends the session and cannot be caught. -/
def isFatal (k : FaultKind) : Bool := k == .heapExhausted

end FaultKind

/-- A broken invariant. -/
inductive Defect where
  /-- A reference to an object that was reclaimed. -/
  | dangling (address : Address)
  /-- A form mentions a runtime object that is not registered. -/
  | unknownObject (handle : Nat)
  /-- An object is not of the kind that the reference to it says. -/
  | unexpectedObject (expected found : Kind)
  /-- A `recur` reached no loop and no function. -/
  | recurEscaped
  /-- A compiled function reached the tree walker. -/
  | compiledInTreeWalk
  /-- An interpreted function reached the machine. -/
  | interpretedInMachine
  /-- The machine has no frame to run. -/
  | noFrame
  /-- A frame ran past the end of its code. -/
  | codeOutOfRange
  /-- An operand is missing. -/
  | stackUnderflow
  /-- A constant is missing. -/
  | noConstant (index : Nat)
  /-- A call site is missing. -/
  | noSite (index : Nat)
  /-- A prototype is missing. -/
  | noPrototype (index : Nat)
  /-- A captured value is missing. -/
  | noCapture (index : Nat)
  /-- The name of a root binding is not a symbol. -/
  | nameNotASymbol
  /-- There is no handler to remove. -/
  | noHandler
  /-- There is no held failure to raise again. -/
  | nothingHeld
  deriving DecidableEq

/-- The wording of a broken invariant. -/
def Defect.message : Defect → String
  | .dangling a => s!"dangling heap reference {a.index}:{a.generation}"
  | .unknownObject handle => s!"unknown embedded object #{handle}"
  | .unexpectedObject expected found =>
    let (expected, found) := (expected.name, found.name)
    s!"{expected} reference points at {found}"
  | .recurEscaped => "recur escaped its loop"
  | .compiledInTreeWalk => "compiled function called from the tree-walk backend"
  | .interpretedInMachine => "interpreted function called from the bytecode backend"
  | .noFrame => "no active VM frame"
  | .codeOutOfRange => "instruction pointer out of range"
  | .stackUnderflow => "VM stack underflow"
  | .noConstant index => s!"constant {index} out of range"
  | .noSite index => s!"call site {index} out of range"
  | .noPrototype index => s!"prototype {index} out of range"
  | .noCapture index => s!"capture {index} out of range"
  | .nameNotASymbol => "global name is not a symbol"
  | .noHandler => "no handler to pop"
  | .nothingHeld => "rethrow without a pending error"

/-- A limit on the size of compiled code. -/
inductive CodeLimit where
  /-- A table has more entries than an instruction can index. -/
  | tooManyConstants
  /-- A frame has more slots than an instruction can index. -/
  | tooManyLocals
  /-- A jump is longer than an instruction can express. -/
  | jumpTooFar
  deriving DecidableEq

/-- The wording of an exceeded code limit. -/
def CodeLimit.message : CodeLimit → String
  | .tooManyConstants => "Too many constants in function"
  | .tooManyLocals => "Too many local variables"
  | .jumpTooFar => "Jump distance too large; split the function"

/-- Why something failed. -/
inductive Cause where
  /-- The source text is not code. -/
  | unreadable (cause : ReadError.Cause)
  /-- A special form has the wrong shape. -/
  | malformed (form : String) (what : Malformation)
  /-- A macro call keeps expanding. -/
  | expansionTooDeep (name : String) (limit : Nat)
  /-- Compiled code would be too large. -/
  | codeTooLarge (limit : CodeLimit)
  /-- A symbol has no binding. -/
  | unresolved (name : String)
  /-- A function got a number of arguments that it does not take. -/
  | arity (name : String) (accepts : Accepts) (given : Nat)
  /-- An operation got a value of the wrong type. -/
  | typeMismatch (operation expected found : String)
  /-- A value that is no function was called. -/
  | notCallable (typeName : String)
  /-- A division by zero. -/
  | divideByZero
  /-- The result of an integer operation does not fit sixty-four bits. -/
  | overflow (operation : String)
  /-- A range would never advance. -/
  | zeroStep
  /-- An index is not within a collection. -/
  | indexOutOfBounds (index : Int) (length : Nat)
  /-- Calls are nested more deeply than the limit allows. -/
  | callsTooDeep (limit : Nat)
  /-- The heap holds as many objects as it may. -/
  | heapFull (live : Nat)
  /-- The session has ended. -/
  | terminated
  /-- Evaluated code raised a value, described by the message. -/
  | raised (message : String)
  /-- A host function failed. -/
  | hostFailed (name message : String)
  /-- A file cannot be read. -/
  | unreadableFile (path reason : String)
  /-- A host integer is too large for the language. -/
  | hostOverflow
  /-- An integer does not fit thirty-two bits. -/
  | tooLargeForInt32 (n : Int)
  /-- An integer is not the size of anything. -/
  | notASize (n : Int)
  /-- A failure that a host function describes itself. -/
  | reported (kind : FaultKind) (message : String)
  /-- A broken invariant. -/
  | defect (d : Defect)
  deriving DecidableEq

namespace Cause

/-- The kind of a cause. -/
def kind : Cause → FaultKind
  | .unreadable _ => .invalidSyntax
  | .malformed _ _ => .invalidSyntax
  | .expansionTooDeep _ _ => .macroExpansionDepthExceeded
  | .codeTooLarge _ => .invalidSyntax
  | .unresolved _ => .unresolvedSymbol
  | .arity _ _ _ => .arityMismatch
  | .typeMismatch _ _ _ => .typeMismatch
  | .notCallable _ => .typeMismatch
  | .divideByZero => .arithmeticError
  | .overflow _ => .arithmeticError
  | .zeroStep => .arithmeticError
  | .indexOutOfBounds _ _ => .indexOutOfBounds
  | .callsTooDeep _ => .stackOverflow
  | .heapFull _ => .heapExhausted
  | .terminated => .heapExhausted
  | .raised _ => .userRaised
  | .hostFailed _ _ => .hostCallFailure
  | .unreadableFile _ _ => .hostCallFailure
  | .hostOverflow => .arithmeticError
  | .tooLargeForInt32 _ => .arithmeticError
  | .notASize _ => .arithmeticError
  | .reported kind _ => kind
  | .defect _ => .internal

/-- The wording of a cause. -/
def message : Cause → String
  | .unreadable cause => cause.message
  | .malformed form what => s!"Invalid '{form}' syntax: " ++ what.message
  | .expansionTooDeep name limit => s!"Macro expansion of {name} exceeded depth {limit}"
  | .codeTooLarge limit => limit.message
  | .unresolved name => s!"Unable to resolve symbol: {name}"
  | .arity name accepts given =>
    s!"Wrong number of args ({given}) passed to {name}: expected " ++ accepts.text
  | .typeMismatch operation expected found => s!"{operation}: expected {expected}, got {found}"
  | .notCallable typeName => s!"Cannot call value of type {typeName}"
  | .divideByZero => "Divide by zero"
  | .overflow operation => s!"integer overflow in {operation}"
  | .zeroStep => "range step must not be zero"
  | .indexOutOfBounds index length =>
    s!"Index {index} out of bounds for collection of length {length}"
  | .callsTooDeep limit => s!"Stack overflow: call depth exceeded {limit}"
  | .heapFull live => s!"Heap exhausted: {live} live objects"
  | .terminated => "Evaluation context terminated after heap exhaustion"
  | .raised message => message
  | .hostFailed name message => s!"Host function {name} failed: {message}"
  | .unreadableFile path reason => s!"Cannot read {path}: {reason}"
  | .hostOverflow => "Integer overflow"
  | .tooLargeForInt32 n => s!"{n} does not fit in i32"
  | .notASize n => s!"{n} is not a valid size"
  | .reported _ message => message
  | .defect d => "Internal error: " ++ d.message

end Cause

end TwinLisp
