import TwinLisp.Bytecode.Assembly
import TwinLisp.Expansion.Quotation
import TwinLisp.Number.Operator
import TwinLisp.Special.Shape

/-!
# Compiling

From an expanded and checked form to code for the stack machine. The code of every form leaves one
more value on the operand stack than there was before, whatever way it takes through its branches,
unless it raises or jumps back to the start of a loop.

A form is compiled at a *place*, which knows how high the operand stack is there, which slots the
names around denote, and at which offset the code will stand. Jumps are relative, so their offsets
follow from the lengths of the code between.

The locations are those the tree walker would blame: the innermost form around that has one.

## Main definitions

* `CompilePlace` and `Compiler`, which compiles the parts of a form.
* `Compiler.step` compiles a form with the help of a compiler for its parts.
* `compileProgram` compiles a whole program.
-/

namespace TwinLisp

/-- Where a `recur` goes. -/
structure JumpTarget where
  /-- The offset of the first instruction to run again. -/
  start : Nat
  /-- The first slot that gets a new value. -/
  firstSlot : Nat
  /-- How many slots get new values. -/
  slots : Nat

/-- Where code is going to stand. -/
structure CompilePlace where
  /-- The location of the innermost form around that has one. -/
  cursor : Location
  /-- The offset of the next instruction. -/
  offset : Nat
  /-- The height of the operand stack. -/
  depth : Nat
  /-- The names of the function being compiled. -/
  names : FunctionNames
  /-- The names of the functions around it, the innermost first. -/
  outer : List FunctionNames
  /-- Where a `recur` goes. -/
  target : Option JumpTarget

namespace CompilePlace

/-- Inside a form at `l`. -/
def within (p : CompilePlace) (l : Location) : CompilePlace :=
  { p with cursor := l.orElse p.cursor }

/-- Behind `n` instructions that left `pushed` more values. -/
def skip (p : CompilePlace) (n pushed : Nat) : CompilePlace :=
  { p with offset := p.offset + n, depth := p.depth + pushed }

/-- Behind the code of a form. -/
def after (p : CompilePlace) (code : Code) : CompilePlace := p.skip code.length 1

/-- With a name for the slot `i`. -/
def naming (p : CompilePlace) (name : String) (i : Nat) : CompilePlace :=
  { p with names := { p.names with locals := (name, i) :: p.names.locals } }

/-- The functions around and the one being compiled, the innermost first. -/
def functions (p : CompilePlace) : List FunctionNames := p.names :: p.outer

/-- One instruction. -/
def emit (p : CompilePlace) (i : Instruction) : Code := [(i, p.cursor)]

/-- The call site of a call with the given arguments. -/
def site (p : CompilePlace) (args : List Form) : List Location :=
  p.cursor :: args.map fun a => a.location.orElse p.cursor

end CompilePlace

/-- Compiles the parts of a form. -/
abbrev Compiler := CompilePlace → Form → Assemble Code

/-- The instruction for a core operator. -/
def CoreOp.instruction : CoreOp → Nat → Instruction
  | .arith op, site => .arith op site
  | .compare op, site => .compare op site

namespace Compiler

/-! ### Several forms -/

/-- Code that leaves the values of some forms. -/
def values (c : Compiler) (p : CompilePlace) : List Form → Assemble Code
  | [] => return []
  | f :: fs => do
    let code ← c p f
    return code ++ (← values c (p.after code) fs)

/-- Code that leaves the value of the last of some forms; `nil` if there are none. -/
def body (c : Compiler) (p : CompilePlace) : List Form → Assemble Code
  | [] => return p.emit .pushNil
  | [f] => c p f
  | f :: fs => do
    let code ← c p f
    return code ++ p.emit .pop ++ (← body c (p.skip (code.length + 1) 0) fs)

/-! ### Leaves and calls -/

/-- Code that leaves a constant. -/
def constant (p : CompilePlace) (v : Value) : Assemble Code :=
  return p.emit (.const (← Assemble.addConstant v))

/-- Code that leaves what a name denotes. -/
def named (p : CompilePlace) (name : String) : Assemble Code := do
  match ← Assemble.resolve p.functions name with
  | .slot i => return p.emit (.loadLocal i)
  | .captured i => return p.emit (.loadCapture i)
  | .global => do
    let symbol ← StateT.lift (Eval.symbol name)
    return p.emit (.loadGlobal (← Assemble.addConstant symbol))

/-- Code for a leaf. -/
def leaf (p : CompilePlace) : Leaf → Assemble Code
  | .nil => return p.emit .pushNil
  | .bool true => return p.emit .pushTrue
  | .bool false => return p.emit .pushFalse
  | .symbol name => named p name
  | d => do constant p (← StateT.lift (Eval.valueOfLeaf d))

/-- Code for the items of a collection and the instruction that builds it. -/
def collection (c : Compiler) (p : CompilePlace) (items : List Form)
    (build : Nat → Instruction) : Assemble Code := do
  let code ← c.values p items
  let n ← Assemble.index .tooManyConstants items.length
  return code ++ p.emit (build n)

/-- The core operator that a call with these arguments applies, if it can be applied inline. -/
def inline? (p : CompilePlace) (name : String) (args : List Form) : Assemble (Option CoreOp) := do
  match CoreOp.ofName? name, args with
  | some op, [_, _] =>
    match ← Assemble.resolve p.functions name with
    | .global => return some op
    | _ => return none
  | _, _ => return none

/-- `(operator left right)` -/
def inlined (c : Compiler) (p : CompilePlace) (op : CoreOp) (args : List Form) :
    Assemble Code := do
  let code ← c.values p args
  let site ← Assemble.addSite (p.site args)
  return code ++ p.emit (op.instruction site)

/-- `(callee argument…)` -/
def call (c : Compiler) (p : CompilePlace) (head : Form) (args : List Form) : Assemble Code := do
  let code ← c.values p (head :: args)
  let site ← Assemble.addSite (p.site args)
  let argc ← Assemble.index .tooManyConstants args.length
  return code ++ p.emit (.call argc site)

/-! ### Functions -/

/-- Give slots to parameters, from the top of the stack on. -/
def parameters (p : CompilePlace) : List String → Assemble CompilePlace
  | [] => return p
  | name :: names => do
    let slot ← Assemble.index .tooManyLocals p.depth
    parameters ((p.naming name slot).skip 0 1) names

/-- The code for one parameter list. -/
def overload (c : Compiler) (p : CompilePlace) (self : Option String) (o : OverloadShape) :
    Assemble (ArityCode Prototype) := do
  let (code, tables) ← Assemble.withTables do
    let start : CompilePlace :=
      -- Slot 0 holds the function itself, and the parameters follow it.
      { cursor := p.cursor, offset := 0, depth := 1, names := ⟨self, []⟩, outer := p.functions
        target := none }
    let inner ← parameters start o.names
    let slots ← Assemble.index .tooManyLocals o.names.length
    -- A `recur` outside of any loop starts the function over.
    let code ← c.body { inner with target := some ⟨0, 1, slots⟩ } o.body
    return code ++ p.emit .ret
  return {
    params := o.params.length
    hasRest := o.rest.isSome
    code := (code.map (·.1)).toArray
    locations := (code.map (·.2)).toArray
    constants := tables.constants
    sites := tables.sites
    prototypes := tables.prototypes.toList }

/-- The prototype of a function. -/
def prototype (c : Compiler) (p : CompilePlace) (name : Option String)
    (overloads : List OverloadShape) : Assemble Prototype := do
  let (arities, captures) ← Assemble.withCaptures (overloads.mapM (c.overload p name))
  let symbol ← name.mapM fun n => StateT.lift (Eval.intern n)
  return .mk symbol name (captures.map (·.2)) arities

/-! ### Special forms -/

/-- Code that binds the value on the stack at the root and leaves the name. -/
def define (p : CompilePlace) (name : String) : Assemble Code := do
  let symbol ← StateT.lift (Eval.symbol name)
  return p.emit (.defGlobal (← Assemble.addConstant symbol))

/-- `(if test then else?)` -/
def conditional (c : Compiler) (p : CompilePlace) (args : List Form) : Assemble Code := do
  let test ← c p (args.head?.getD default)
  -- The jump takes the value of the test off the stack.
  let p₁ := p.skip (test.length + 1) 0
  let yes ← c p₁ (args[1]?.getD default)
  -- Over the branch and over the jump behind it.
  let toElse ← Assemble.forward (yes.length + 1)
  let p₂ := p₁.skip (yes.length + 1) 0
  let no ←
    match args[2]? with
    | some f => c p₂ f
    | none => pure (p.emit .pushNil)
  let toEnd ← Assemble.forward no.length
  return test ++ p.emit (.popJumpIfFalse toElse) ++ yes ++ p.emit (.jump toEnd) ++ no

/-- Code for bindings, and the place behind it, where the names are bound. -/
def bind (c : Compiler) (p : CompilePlace) : List Binding → Assemble (Code × CompilePlace)
  | [] => return ([], p)
  | (name, value) :: rest => do
    let code ← c p value
    let slot ← Assemble.index .tooManyLocals p.depth
    let (more, q) ← bind c ((p.after code).naming name slot) rest
    return (code ++ more, q)

/-- `(let [name value…] body…)` and `(loop [name value…] body…)` -/
def binding (c : Compiler) (p : CompilePlace) (isLoop : Bool) (f : Form) : Assemble Code := do
  let bindings ←
    StateT.lift (Eval.ofExcept (Shape.bindings (if isLoop then "loop" else "let") f))
  let firstSlot ← Assemble.index .tooManyLocals p.depth
  let (init, q) ← c.bind p bindings
  let slots ← Assemble.index .tooManyLocals bindings.length
  let q := if isLoop then { q with target := some ⟨q.offset, firstSlot, slots⟩ } else q
  let code ← c.body q (Shape.bindingBody f)
  -- The value of the body moves down over the slots of the names.
  return init ++ code ++ (if slots == 0 then [] else p.emit (.endScope slots))

/-- Code that stores values into `slots` slots from `firstSlot` on, the topmost value last. -/
def store (p : CompilePlace) (firstSlot slots : Nat) : Code :=
  ((List.range slots).reverse).flatMap fun i => p.emit (.storeLocal (firstSlot + i))

/-- `(recur value…)` -/
def recur (c : Compiler) (p : CompilePlace) (args : List Form) : Assemble Code := do
  match p.target with
  | none => StateT.lift (Eval.failWith (.malformed "recur" .recurWithoutTarget))
  | some t =>
    let code ← c.values p args
    let code := code ++ store p t.firstSlot args.length ++
      p.emit (.truncate (Assemble.wrapped (t.firstSlot + t.slots)))
    let back ← Assemble.backward (p.offset + code.length) t.start
    return code ++ p.emit (.jump back)

/-- The body of a `try` with its handler, if it has one. -/
def handled (c : Compiler) (p : CompilePlace) (shape : AttemptShape) : Assemble Code := do
  match shape.handlers.head? with
  | none => c.body p shape.body
  | some (name, forms) =>
    -- What follows is laid out as `pushCatch`, body, `popHandler`, `jump`, handler, `endScope`.
    let inner ← c.body (p.skip 1 0) shape.body
    let toHandler ← Assemble.forward (inner.length + 2)
    let slot ← Assemble.index .tooManyLocals p.depth
    -- The machine has put the caught value where the value of the body would be.
    let handler ← c.body ((p.skip (inner.length + 3) 1).naming name slot) forms
    let toEnd ← Assemble.forward (handler.length + 1)
    return p.emit (.pushCatch toHandler) ++ inner ++ p.emit .popHandler ++ p.emit (.jump toEnd) ++
      handler ++ p.emit (.endScope 1)

/-- `(try body… (catch Class name handler…) (finally cleanup…))`. The cleanup is compiled twice, for
the way out with a value and for the way out with a failure. -/
def attempt (c : Compiler) (p : CompilePlace) (f : Form) : Assemble Code := do
  let shape ← StateT.lift (Eval.ofExcept (Shape.attempt f))
  match shape.cleanup with
  | none => c.handled p shape
  | some forms =>
    -- What follows is laid out as `pushFinally`, body, `popHandler`, cleanup, `pop`, `jump`,
    -- cleanup, `pop`, `rethrow`. The first cleanup runs above the value of the body.
    let inner ← c.handled (p.skip 1 0) shape
    let usual ← c.body (p.skip (inner.length + 2) 1) forms
    let toCleanup ← Assemble.forward (inner.length + usual.length + 3)
    let failing ← c.body (p.skip (inner.length + usual.length + 4) 0) forms
    let toEnd ← Assemble.forward (failing.length + 2)
    return p.emit (.pushFinally toCleanup) ++ inner ++ p.emit .popHandler ++ usual ++ p.emit .pop ++
      p.emit (.jump toEnd) ++ failing ++ p.emit .pop ++ p.emit .rethrow

/-- Code for the special form `f`. -/
def special (c : Compiler) (p : CompilePlace) (kind : SpecialForm) (f : Form) :
    Assemble Code := do
  let args := f.items.drop 1
  let misplaced := StateT.lift (Eval.failWith (.malformed (f.headSymbol?.getD "") .misplaced))
  match kind with
  | .quote => do constant p (← StateT.lift (Eval.valueOfForm (args.head?.getD default)))
  | .conditional => c.conditional p args
  | .sequence => c.body p args
  | .letBinding => c.binding p false f
  | .loop => c.binding p true f
  | .recur => c.recur p args
  | .function => do
    let shape ← StateT.lift (Eval.ofExcept (Shape.function f))
    let proto ← c.prototype p shape.name shape.overloads
    return p.emit (.closure (← Assemble.addPrototype proto))
  | .definition => do
    let (name, value) ← StateT.lift (Eval.ofExcept (Shape.definition f))
    let code ←
      match value with
      | some value => c p value
      | none => pure (p.emit .pushNil)
    return code ++ (← define p name)
  | .macroDefinition => do
    let (name, overloads) ← StateT.lift (Eval.ofExcept (Shape.macroDefinition f))
    let proto ← c.prototype p (some name) overloads
    let code := p.emit (.macroClosure (← Assemble.addPrototype proto))
    return code ++ (← define p name)
  | .raise => do
    let code ← c p (args.head?.getD default)
    return code ++ p.emit .raise
  | .attempt => c.attempt p f
  | .template => misplaced
  | .handler => misplaced
  | .cleanup => misplaced

/-- Code for a form, using `c` for its parts. -/
def step (c : Compiler) (p : CompilePlace) : Form → Assemble Code
  | .leaf d l => leaf (p.within l) d
  | .group .list [] l => return (p.within l).emit (.buildList 0)
  | .group .list (head :: args) l => do
    let p := p.within l
    match head.symbolName? with
    | none => c.call p head args
    | some name =>
      match SpecialForm.ofName? name with
      | some kind => c.special p kind (.list (head :: args) l)
      | none =>
        match ← inline? p name args with
        | some op => c.inlined p op args
        | none => c.call p head args
  | .group .vector items l => c.collection (p.within l) items .buildVector
  | .group .map items l => c.collection (p.within l) items .buildMap
  | .group .set items l => c.collection (p.within l) items .buildSet

/-- Code for a form with at most so many levels. -/
def within : Nat → Compiler
  | 0 => fun _ _ => throw .outOfFuel
  | levels + 1 => fun p f => step (within levels) p f

end Compiler

/-- The prototype of a program, which takes no arguments. -/
def compileProgram (f : Form) : Eval Prototype := do
  let start : CompilePlace :=
    { cursor := .unknown, offset := 0, depth := 1, names := ⟨none, []⟩, outer := [], target := none }
  let assembly : Assembly := ⟨.empty, [[]]⟩
  let (code, a) ← (Compiler.within f.height start f).run assembly
  let code := code ++ start.emit .ret
  return .mk none none []
    [{ params := 0
       hasRest := false
       code := (code.map (·.1)).toArray
       locations := (code.map (·.2)).toArray
       constants := a.tables.constants
       sites := a.tables.sites
       prototypes := a.tables.prototypes.toList }]

end TwinLisp
