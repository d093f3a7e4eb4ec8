import TwinLisp.Fault.Basic
import TwinLisp.Heap.Collection
import TwinLisp.Session.Attribution
import TwinLisp.Session.SymbolTable

/-!
# Sessions

A session is everything that evaluation reads and changes: the heap, the names, the scopes, the table
of locations to blame, the output and a few counters. A computation on a session yields a result or
stops, and it keeps what it did to the session in either case.

A computation stops for one of two reasons. A *fault* is part of the language: it has a cause, can be
caught unless it is fatal, and ends up in front of the user. *Out of fuel* is no event of the
language; it says that the number of steps granted to an evaluator was not enough.

## Main definitions

* `Limits`, `Session` and the monad `Eval` of computations on it.
* `Eval.always` runs something after a computation, whichever way that ends.
* `Eval.blaming` offers a location to the faults of a computation.
* `Session.collectGarbage` and `Eval.maybeCollect`: collection at a point where it is safe.

## Main statements

* `Eval.bind_eq_of_ok`, `Eval.bind_eq_of_error`: how a computation goes on after its first part.
* `Eval.object_eq_of_get?`, `Eval.embedded_eq_of_some`: what is looked up and there is found.
-/

namespace TwinLisp

/-- What a session may use, and how eagerly it collects. -/
structure Limits where
  /-- How deeply calls may be nested. -/
  callDepth : Nat := 1000
  /-- How deeply the forms of a program may be nested. -/
  formDepth : Nat := 512
  /-- How deeply macro expansions may be nested. -/
  macroDepth : Nat := 256
  /-- After how many allocations a collection is due. -/
  collectAfter : Nat := 4096
  /-- How many objects there may be. -/
  objects : Nat := 4000000
  /-- Whether a collection is due at every opportunity. -/
  alwaysCollect : Bool := false
  deriving DecidableEq

instance : Inhabited Limits := ⟨{}⟩

/-- The state of evaluation. -/
structure Session where
  /-- The limits to keep. -/
  limits : Limits
  /-- The objects. -/
  heap : Heap
  /-- The names. -/
  symbols : SymbolTable
  /-- The bindings. -/
  scopes : Scopes
  /-- Where the running native call and its arguments stand. -/
  attribution : Attribution
  /-- Values that the host keeps alive, by pin. -/
  pins : Std.TreeMap Nat Value
  /-- The next pin. -/
  nextPin : Nat
  /-- How many names have been generated. -/
  generated : Nat
  /-- How many computations in progress forbid collection. -/
  inhibited : Nat
  /-- How deeply calls are nested. -/
  callDepth : Nat
  /-- How deeply top-level evaluations are nested. -/
  nesting : Nat
  /-- The operands of the machines that wait while native code runs. -/
  operands : Array Value
  /-- What has been printed. -/
  output : String
  /-- Whether the session has ended. -/
  terminated : Bool

namespace Session

/-- A session in which nothing has happened. -/
def fresh (limits : Limits) : Session :=
  { limits, heap := .empty (some limits.objects), symbols := .empty, scopes := .initial,
    attribution := .initial, pins := ∅, nextPin := 0, generated := 0, inhibited := 0, callDepth := 0,
    nesting := 0, operands := #[], output := "", terminated := false }

instance : Inhabited Session := ⟨fresh {}⟩

/-- The root binding of a symbol. -/
def global? (s : Session) (name : Symbol) : Option Value := s.scopes.lookup? Scopes.root name

/-- What every collection keeps: the root bindings, the pinned values and the operands of the machines that
wait. -/
def ownRoots (s : Session) : List Node :=
  .scope Scopes.root :: Node.ofValues (s.pins.values ++ s.operands.toList)

/-- Collect, keeping also what can be reached from `roots`. The second part of the result is the
number of objects reclaimed. -/
def collectGarbage (s : Session) (roots : List Node) : Session × Nat :=
  let (heap, freed) := s.heap.collect s.scopes (s.ownRoots ++ roots)
  ({ s with heap }, freed)

/-- Whether the limits ask for a collection, and nothing forbids it. -/
def wantsCollection (s : Session) : Bool :=
  s.inhibited == 0 && !s.terminated &&
    (s.limits.alwaysCollect || s.limits.collectAfter ≤ s.heap.sinceCollection)

end Session

/-- Why a computation stopped. -/
inductive Stop where
  /-- Something failed. -/
  | fault (f : Fault)
  /-- The granted number of steps is used up. -/
  | outOfFuel

/-- A computation on a session. -/
abbrev Eval := EStateM Stop Session

namespace Eval

/-! ### Stopping -/

/-- Stop with a fault. -/
def fail {α : Type} (f : Fault) : Eval α := throw (.fault f)

/-- Stop with a fault that nothing is blamed for yet. -/
def failWith {α : Type} (cause : Cause) : Eval α := fail (.of cause)

/-- Stop because an invariant is broken. -/
def defect {α : Type} (d : Defect) : Eval α := failWith (.defect d)

/-- A result that was computed without a session. -/
def ofExcept {α : Type} : Except Fault α → Eval α
  | .ok a => pure a
  | .error f => fail f

/-- The outcome of `x`: its result or its fault. -/
def attempt {α : Type} (x : Eval α) : Eval (Except Fault α) := fun s =>
  match x s with
  | .ok a s => .ok (.ok a) s
  | .error (.fault f) s => .ok (.error f) s
  | .error .outOfFuel s => .error .outOfFuel s

/-- Change the fault of `x`. -/
def mapFault {α : Type} (change : Fault → Fault) (x : Eval α) : Eval α := fun s =>
  match x s with
  | .error (.fault f) s => .error (.fault (change f)) s
  | r => r

/-- Offer a location to blame for the fault of `x`. -/
def blaming {α : Type} (l : Location) (x : Eval α) : Eval α := mapFault (Fault.orAt l) x

/-- Run `x` and then change the session, whichever way `x` ends. -/
def always {α : Type} (after : Session → Session) (x : Eval α) : Eval α := fun s =>
  match x s with
  | .ok a s => .ok a (after s)
  | .error e s => .error e (after s)

/-- Run `x` on top of the given operands. The result is what is left of them, with the outcome of `x`. -/
def lending {α : Type} (operands : Array Value) (x : Eval α) : Eval (Array Value × Except Fault α) := fun s =>
  match x { s with operands } with
  | .ok a t => .ok (t.operands, .ok a) { t with operands := s.operands }
  | .error (.fault f) t => .ok (t.operands, .error f) { t with operands := s.operands }
  | .error .outOfFuel t => .error .outOfFuel t

/-! ### One computation after another -/

theorem bind_eq_of_ok {α β : Type} {x : Eval α} {f : α → Eval β} {a : α} {s s' : Session}
    (h : x s = .ok a s') : (x >>= f) s = f a s' := by
  change EStateM.bind x f s = _
  rw [EStateM.bind, h]

theorem bind_eq_of_error {α β : Type} {x : Eval α} {f : α → Eval β} {e : Stop} {s s' : Session}
    (h : x s = .error e s') : (x >>= f) s = .error e s' := by
  change EStateM.bind x f s = _
  rw [EStateM.bind, h]

theorem of_bind_eq_ok {α β : Type} {x : Eval α} {f : α → Eval β} {s t : Session} {b : β}
    (h : (x >>= f) s = .ok b t) : ∃ a u, x s = .ok a u ∧ f a u = .ok b t := by
  cases ran : x s with
  | ok a u => exact ⟨a, u, rfl, (bind_eq_of_ok ran).symm.trans h⟩
  | error e u => cases (bind_eq_of_error ran).symm.trans h

/-- What follows depends on the outcome of what comes before it only. -/
theorem bind_congr_run {α β : Type} {x y : Eval α} (f : α → Eval β) {s t : Session} (h : x s = y t) :
    (x >>= f) s = (y >>= f) t := by
  change EStateM.bind x f s = EStateM.bind y f t
  rw [EStateM.bind, EStateM.bind, h]

theorem always_of_ok {α : Type} {x : Eval α} {after : Session → Session} {a : α} {s t : Session}
    (h : x s = .ok a t) : always after x s = .ok a (after t) := by rw [always, h]

theorem always_of_error {α : Type} {x : Eval α} {after : Session → Session} {e : Stop} {s t : Session}
    (h : x s = .error e t) : always after x s = .error e (after t) := by rw [always, h]

theorem always_congr {α : Type} {x y : Eval α} {after : Session → Session} {s t : Session}
    (h : x s = y t) : always after x s = always after y t := by rw [always, always, h]

theorem get_bind {α : Type} (f : Session → Eval α) (s : Session) : (get >>= f) s = f s s := rfl

/-! ### Names -/

/-- The symbol with the given name. -/
def intern (name : String) : Eval Symbol :=
  modifyGet fun s =>
    let (symbols, symbol) := s.symbols.intern name
    (symbol, { s with symbols })

/-- The name of a symbol. -/
def nameOf (symbol : Symbol) : Eval String := return (← get).symbols.name symbol

/-- A name that starts with `start` and goes on with a number that no other call of this function uses. -/
def generateName (start : String) : Eval String :=
  modifyGet fun s =>
    let n := s.generated + 1
    (start ++ toString n, { s with generated := n })

/-! ### Scopes -/

/-- Open a scope inside `parent`. -/
def openScope (parent : ScopeId) : Eval ScopeId :=
  modifyGet fun s => (s.scopes.size, { s with scopes := s.scopes.openIn parent })

/-- Bind a name in a scope. -/
def define (scope : ScopeId) (name : Symbol) (v : Value) : Eval Unit :=
  modify fun s => { s with scopes := s.scopes.define scope name v }

/-- Bind a name at the root. -/
def defineGlobal (name : Symbol) (v : Value) : Eval Unit := define Scopes.root name v

/-! ### Objects -/

/-- Stop if the session has ended. -/
def checkAlive : Eval Unit := do
  if (← get).terminated then failWith .terminated

/-- Put an object on the heap. A heap that is full ends the session. -/
def alloc (o : Object) : Eval Address := do
  checkAlive
  fun s =>
    if s.heap.isFull then
      .error (.fault (.of (.heapFull s.heap.stats.live))) { s with terminated := true }
    else
      let (heap, a) := s.heap.place o
      .ok a { s with heap }

/-- A reference to a new object. -/
def new (o : Object) : Eval Value := do
  let kind := o.kind
  return .ref kind (← alloc o)

/-- A new string. -/
def newString (s : String) : Eval Value := new (.str s)

/-- A new list. -/
def newList (items : List Value) : Eval Value := new (.list items .unknown)

/-- A new vector. -/
def newVector (items : List Value) : Eval Value := new (.vector items .unknown)

/-- The object with the given address. -/
def object (a : Address) : Eval Object := do
  match (← get).heap.get? a with
  | some o => return o
  | none => defect (.dangling a)

theorem object_eq_of_get? {s : Session} {a : Address} {o : Object} (h : s.heap.get? a = some o) :
    object a s = .ok o s := by
  unfold object
  simp only [get_bind, h]
  rfl

theorem object_eq_of_none {s : Session} {a : Address} (h : s.heap.get? a = none) :
    object a s = .error (.fault (.of (.defect (.dangling a)))) s := by
  unfold object
  simp only [get_bind, h]
  rfl

/-- The contents of a string. -/
def string? : Value → Eval (Option String)
  | .ref .str a => do
    match ← object a with
    | .str s => return some s
    | _ => return none
  | _ => return none

/-- The items of a list or a vector. -/
def items? : Value → Eval (Option (List Value))
  | .ref .list a | .ref .vector a => do
    match ← object a with
    | .list items _ | .vector items _ => return some items
    | _ => return none
  | _ => return none

/-- The contents of a map. -/
def map? : Value → Eval (Option OrderedMap)
  | .ref .map a => do
    match ← object a with
    | .map m => return some m
    | _ => return none
  | _ => return none

/-- The contents of a set. -/
def set? : Value → Eval (Option OrderedSet)
  | .ref .set a => do
    match ← object a with
    | .set s => return some s
    | _ => return none
  | _ => return none

/-- The function that a value refers to. -/
def function? : Value → Eval (Option Function)
  | .ref .function a => do
    match ← object a with
    | .function f => return some f
    | _ => return none
  | _ => return none

/-- Register a value for use in forms. -/
def embed (v : Value) : Eval Nat :=
  modifyGet fun s =>
    let (heap, handle) := s.heap.embed v
    (handle, { s with heap })

/-- The value that a form mentions by handle. -/
def embedded (handle : Nat) : Eval Value := do
  match (← get).heap.embedded? handle with
  | some v => return v
  | none => defect (.unknownObject handle)

theorem embedded_eq_of_some {s : Session} {n : Nat} {v : Value} (h : s.heap.embedded? n = some v) :
    embedded n s = .ok v s := by
  unfold embedded
  simp only [get_bind, h]
  rfl

theorem embedded_eq_of_none {s : Session} {n : Nat} (h : s.heap.embedded? n = none) :
    embedded n s = .error (.fault (.of (.defect (.unknownObject n)))) s := by
  unfold embedded
  simp only [get_bind, h]
  rfl

/-! ### Collection -/

/-- Collect if a collection is due, keeping also what can be reached from `roots`. -/
def maybeCollect (roots : Unit → List Node) : Eval Unit := do
  let s ← get
  if s.wantsCollection then set (s.collectGarbage (roots ())).1

/-- Run `x` without collecting. -/
def withoutCollection {α : Type} (x : Eval α) : Eval α := do
  modify fun s => { s with inhibited := s.inhibited + 1 }
  always (fun s => { s with inhibited := s.inhibited - 1 }) x

/-! ### Calls -/

/-- Run `x` as a native call at `site` with arguments at the given locations. The table of the
surrounding call is back in place afterwards, and a fault that blames nothing else is blamed on the
site. -/
def attributed {α : Type} (site : Location) (arguments : List Location) (x : Eval α) : Eval α := do
  let saved := (← get).attribution
  modify fun s => { s with attribution := .ofArguments site arguments }
  always (fun s => { s with attribution := saved }) (blaming site x)

/-- The location of the running native call. -/
def callSite : Eval Location := return (← get).attribution.site

/-- Stop with a fault that is blamed on argument `i` of the running native call. -/
def failAt {α : Type} (i : Nat) (cause : Cause) : Eval α := do
  fail ((Fault.of cause).orAt ((← get).attribution.argument i))

/-- Count one more nested call, unless that is one too many. -/
def enterCall : Eval Unit := do
  let s ← get
  if s.limits.callDepth ≤ s.callDepth then failWith (.callsTooDeep s.limits.callDepth)
  else set { s with callDepth := s.callDepth + 1 }

/-- Count one nested call less. -/
def leaveCall (s : Session) : Session := { s with callDepth := s.callDepth - 1 }

/-- Set the number of nested calls. -/
def setCallDepth (n : Nat) : Eval Unit := modify fun s => { s with callDepth := n }

/-- Leave these operands to the machines that wait. -/
def setOperands (operands : Array Value) : Eval Unit := modify fun s => { s with operands }

/-! ### Output -/

/-- Print some text. -/
def write (text : String) : Eval Unit := modify fun s => { s with output := s.output ++ text }

end Eval

end TwinLisp
