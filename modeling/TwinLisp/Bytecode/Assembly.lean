import TwinLisp.Bytecode.Prototype
import TwinLisp.Session.Basic

/-!
# Assembling code

While a function is compiled, its tables of constants, call sites and inner prototypes grow, and so
do the lists of captured values of all the functions around it. Every index that an instruction holds
has sixteen bits, and so has every jump offset, with a sign; what does not fit is refused. The one
exception is the height that a `recur` cuts the stack to, which is added up in sixteen bits and wraps
around.

A name denotes, from the inside out, a local of the function being compiled, that function itself, a
value that it has captured already, or something that the function around it can see, which is then
captured. What no function around can see is a root binding.

## Main definitions

* `CodeTables`, `Assembly` and the monad `Assemble`.
* `Assemble.addConstant`, `Assemble.addSite`, `Assemble.addPrototype`.
* `Assemble.resolve` finds out what a name denotes.
-/

namespace TwinLisp

/-- Instructions with their source locations. -/
abbrev Code := List (Instruction × Location)

/-- The tables of one parameter list's code. -/
structure CodeTables where
  /-- The constants. -/
  constants : Array Value
  /-- The call sites. -/
  sites : Array (List Location)
  /-- The prototypes of inner functions. -/
  prototypes : Array Prototype

/-- Tables without entries. -/
def CodeTables.empty : CodeTables := ⟨#[], #[], #[]⟩

/-- What a function captures, each value with the name it is known by. -/
abbrev CaptureTable := List (String × Capture)

/-- What grows during compilation. -/
structure Assembly where
  /-- The tables of the code being compiled. -/
  tables : CodeTables
  /-- What the functions around capture, the innermost first. -/
  captures : List CaptureTable

/-- A computation that assembles code. -/
abbrev Assemble := StateT Assembly Eval

/-- What the names in a function denote that do not come from outside. -/
structure FunctionNames where
  /-- The name of the function itself. -/
  self : Option String
  /-- The locals with their slots, the latest first. -/
  locals : List (String × Nat)

/-- What a name denotes. -/
inductive Referent where
  /-- The slot of a local. -/
  | slot (i : Nat)
  /-- A captured value. -/
  | captured (i : Nat)
  /-- A root binding. -/
  | global

namespace Assemble

/-- The greatest index that an instruction can hold. -/
def maxIndex : Nat := Nat.pow 2 16 - 1

/-- The longest jump forward. -/
def maxJump : Nat := Nat.pow 2 15 - 1

/-- Refuse to compile because of a limit. -/
def exceed {α : Type} (limit : CodeLimit) : Assemble α :=
  StateT.lift (Eval.failWith (.codeTooLarge limit))

/-- `n` as an index, unless it is too large. -/
def index (limit : CodeLimit) (n : Nat) : Assemble Nat :=
  if n ≤ maxIndex then pure n else exceed limit

/-- `n` in sixteen bits, whether or not it fits. -/
def wrapped (n : Nat) : Nat := n % (maxIndex + 1)

/-- `n` as the offset of a jump forward, unless it is too far. -/
def forward (n : Nat) : Assemble Int := if n ≤ maxJump then pure (n : Int) else exceed .jumpTooFar

/-- The offset of a jump at `offset` back to `target`, unless it is too far. -/
def backward (offset target : Nat) : Assemble Int :=
  if offset + 1 ≤ target + maxJump + 1 then pure ((target : Int) - (offset + 1))
  else exceed .jumpTooFar

/-- The index of a constant; one that is there already is used again. -/
def addConstant (v : Value) : Assemble Nat := do
  let t := (← get).tables
  match t.constants.findIdx? v.identical with
  | some i => return i
  | none =>
    let i ← index .tooManyConstants t.constants.size
    modify fun a =>
      { a with tables := { a.tables with constants := a.tables.constants.push v } }
    return i

/-- The index of a new call site. -/
def addSite (locations : List Location) : Assemble Nat := do
  let i ← index .tooManyConstants (← get).tables.sites.size
  modify fun a =>
    { a with tables := { a.tables with sites := a.tables.sites.push locations } }
  return i

/-- The index of a new prototype. -/
def addPrototype (p : Prototype) : Assemble Nat := do
  let i ← index .tooManyConstants (← get).tables.prototypes.size
  modify fun a =>
    { a with tables := { a.tables with prototypes := a.tables.prototypes.push p } }
  return i

/-- Compile code that has tables of its own. -/
def withTables {α : Type} (x : Assemble α) : Assemble (α × CodeTables) := do
  let outer := (← get).tables
  modify fun a => { a with tables := .empty }
  let r ← x
  let inner := (← get).tables
  modify fun a => { a with tables := outer }
  return (r, inner)

/-- Compile a function that captures values of its own. -/
def withCaptures {α : Type} (x : Assemble α) : Assemble (α × CaptureTable) := do
  modify fun a => { a with captures := [] :: a.captures }
  let r ← x
  let inner := (← get).captures.head?.getD []
  modify fun a => { a with captures := a.captures.drop 1 }
  return (r, inner)

/-! ### Names -/

/-- The position of a captured name. -/
def position? (table : CaptureTable) (name : String) : Option Nat :=
  table.findIdx? (·.1 == name)

/-- What `name` denotes in the first of some functions, each of which stands in the next one, given
what they capture; also what they capture then. -/
def resolveIn (name : String) :
    List FunctionNames → List CaptureTable → Except CodeLimit (Referent × List CaptureTable)
  | [], tables => .ok (.global, tables)
  | f :: outer, tables =>
    match f.locals.lookup name with
    | some i => .ok (.slot i, tables)
    | none =>
      if f.self == some name then .ok (.slot 0, tables)
      else
        let table := tables.head?.getD []
        match position? table name with
        | some i => .ok (.captured i, tables)
        | none =>
          let capture := fun (c : Capture) (rest : List CaptureTable) =>
            if table.length ≤ maxIndex then
              Except.ok (.captured table.length, (table ++ [(name, c)]) :: rest)
            else Except.error CodeLimit.tooManyLocals
          match resolveIn name outer (tables.drop 1) with
          | .error e => .error e
          | .ok (.global, _) => .ok (.global, tables)
          | .ok (.slot i, rest) => capture (.fromSlot i) rest
          | .ok (.captured i, rest) => capture (.fromCapture i) rest

/-- What a name denotes in the innermost of some functions. -/
def resolve (functions : List FunctionNames) (name : String) : Assemble Referent := do
  match resolveIn name functions (← get).captures with
  | .error limit => exceed limit
  | .ok (d, captures) =>
    modify fun a => { a with captures }
    return d

end Assemble

end TwinLisp
