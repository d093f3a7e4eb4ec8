import TwinLisp.Machine.Basic

/-!
# One instruction

What each instruction does to a machine and to the session. A failure is a result like others and
comes with the machine as it was left; only running out of fuel stops the step itself.

A collection may happen before a call and before a jump backward.

## Main definitions

* `Machine.enter` makes the frame for a call of compiled code.
* `Machine.step` runs one instruction.
-/

namespace TwinLisp

/-- The callee of a call, by the way it is run. -/
inductive Callee where
  | compiled (p : Prototype) (captured : Array Value)
  | native (n : Native)
  /-- A keyword or a collection. -/
  | data

/-- How a value is called at `site`. -/
def Callee.of (v : Value) (site : Location) : Eval Callee :=
  match v with
  | .ref .function _ => do
    match (← Eval.blaming site (Eval.callable v)).body with
    | .compiled p captured => return .compiled p captured
    | .native n => return .native n
    | .interpreted _ => Eval.blaming site (Eval.defect .interpretedInMachine)
  | .keyword _ => return .data
  | .ref .map _ => return .data
  | .ref .set _ => return .data
  | .ref .vector _ => return .data
  | v => Eval.blaming site (Eval.failWith (.notCallable v.typeName))

namespace Machine

/-- Stop the step because of a broken invariant. -/
def broken (m : Machine) (d : Defect) : Progress := .failed m (.of (.defect d))

/-- Go on with a value pushed, if there is one. -/
def pushFound (m : Machine) (found : Option Value) (d : Defect) : Progress :=
  match found with
  | some v => .running (m.push v)
  | none => m.broken d

/-- Run `x`, which does not touch the machine, and go on with its result. -/
@[inline] def trying {α : Type} (m : Machine) (x : Eval α) (next : Machine → α → Progress) :
    Eval Progress := do
  match ← Eval.attempt x with
  | .ok a => return next m a
  | .error f => return .failed m f

/-- Go on with the value of `x` pushed. -/
@[inline] def pushing (m : Machine) (x : Eval Value) : Eval Progress :=
  m.trying x fun m v => .running (m.push v)

/-- Run `x`, which may start machines on top of the operands, and go on with its value pushed. -/
def lending (m : Machine) (x : Eval Value) : Eval Progress := do
  let operands := m.operands
  -- The machine lets go of what it lends, so that it need not be copied.
  let m := m.withOperands #[]
  match ← Eval.lending operands x with
  | (operands, .ok v) => return .running ((m.withOperands operands).push v)
  | (operands, .error f) => return .failed (m.withOperands operands) f

/-! ### Calls -/

/-- The list of further arguments; `nil` if there are none. -/
def restArgument (extra : List Value) : Eval Value :=
  if extra.isEmpty then return .nil else Eval.newList extra

/-- The operand for further arguments, if the function takes them. If making it fails, the call is
left again. -/
def restOperand (hasRest : Bool) (extra : List Value) : Eval (List Value) := do
  if hasRest then
    match ← Eval.attempt (restArgument extra) with
    | .ok v => return [v]
    | .error f => do
      modify Eval.leaveCall
      Eval.fail f
  else return []

/-- Make the frame for a call of the compiled function that `callee` refers to, with slot zero at `bottom`,
and what is in its slots. The call counts as one more level of nesting, unless making the frame fails. -/
def enter (callee : Value) (p : Prototype) (captured : Array Value) (args : List Value) (bottom : Nat)
    (site : Location) : Eval (Frame × Array Value) := Eval.blaming site do
  match p.selectArity? args.length with
  | none =>
    Eval.failWith (.arity (← Eval.calleeName p.name) (Overload.accepts p.overloads) args.length)
  | some code =>
    Eval.enterCall
    let rest ← restOperand code.hasRest (args.drop code.params)
    let frame : Frame := { prototype := p, code, ip := 0, bottom, captured, site, isCounted := true }
    return (frame, (callee :: (args.take code.params ++ rest)).toArray)

/-- Call the function that lies beneath its `argc` arguments. -/
def call (natives : NativeRunner) (back : Caller) (m : Machine) (argc site : Nat) : Eval Progress := do
  match m.site? site with
  | none => return m.broken (.noSite site)
  | some sites =>
    let l := sites.head?.getD .unknown
    match m.topmost? (argc + 1) with
    | some (callee :: args) =>
      match ← Eval.attempt (Callee.of callee l) with
      | .error f => return .failed m f
      | .ok (.compiled p captured) =>
        let bottom := m.operands.size - (argc + 1)
        m.trying (enter callee p captured args bottom l) fun m (frame, slots) =>
          .running ((m.drop (argc + 1)).calling frame slots)
      | .ok (.native n) =>
        (m.drop (argc + 1)).lending (Eval.attributed l (sites.drop 1) (natives back n args))
      | .ok .data =>
        (m.drop (argc + 1)).pushing (Eval.attributed l (sites.drop 1) (Library.callData callee args))
    | _ => return m.broken .stackUnderflow

/-- Drop the running frame and its operands; its result is `v`. -/
def leave (m : Machine) (v : Value) : Progress :=
  let below := m.shrink m.top.bottom
  match below.callers with
  | [] => .finished below v
  | caller :: callers => .running ({ below with top := caller, callers }.push v)

theorem leave_of_nil {m : Machine} (h : m.callers = []) (v : Value) :
    m.leave v = .finished (m.shrink m.top.bottom) v := by
  have callers : (m.shrink m.top.bottom).callers = [] := h
  unfold leave
  dsimp only
  rw [callers]

theorem leave_of_cons {m : Machine} {caller : Frame} {callers : List Frame} (h : m.callers = caller :: callers)
    (v : Value) : m.leave v = .running ({ m.shrink m.top.bottom with top := caller, callers }.push v) := by
  have callers_eq : (m.shrink m.top.bottom).callers = caller :: callers := h
  unfold leave
  dsimp only
  rw [callers_eq]

/-- Return from the running frame. -/
def ret (m : Machine) : Eval Progress := do
  match m.pop? with
  | none => return m.broken .stackUnderflow
  | some (v, m) =>
    if m.top.isCounted then modify Eval.leaveCall
    return m.leave v

/-- A value that a new closure captures. -/
def captured (m : Machine) : Capture → Except Defect Value
  | .fromSlot i => (m.slot? i).elim (.error .stackUnderflow) .ok
  | .fromCapture i => (m.top.captured[i]?).elim (.error (.noCapture i)) .ok

/-- The values that a new closure captures. -/
def capture (m : Machine) (p : Prototype) : Except Defect (List Value) := p.captures.mapM m.captured

/-- Make a closure of an inner prototype. -/
def closure (m : Machine) (i : Nat) (isMacro : Bool) : Eval Progress := do
  match m.top.code.prototypes[i]? with
  | none => return m.broken (.noPrototype i)
  | some p =>
    match m.capture p with
    | .error d => return m.broken d
    | .ok captured =>
      m.pushing
        (Eval.new (.function { name := p.name, isMacro, body := .compiled p captured.toArray }))

/-! ### Operators and collections -/

/-- Apply a binary operation to the topmost two values at a call site. -/
def binary (m : Machine) (site : Nat) (operation : Value → Value → Except NumericFault Value) :
    Eval Progress := do
  match m.pop? with
  | none => return m.broken .stackUnderflow
  | some (b, m) =>
    match m.pop? with
    | none => return m.broken .stackUnderflow
    | some (a, m) =>
      match m.site? site with
      | none => return m.broken (.noSite site)
      | some sites =>
        m.pushing
          (Eval.attributed (sites.head?.getD .unknown) (sites.drop 1)
            (Library.settle 0 (operation a b)))

/-- Build a collection of the topmost `n` values. -/
def build (m : Machine) (n : Nat) (make : List Value → Eval Value) : Eval Progress := do
  match m.popMany? n with
  | some (vs, m) => m.pushing (make vs)
  | none => return m.broken .stackUnderflow

/-! ### Names -/

/-- Push a root binding. -/
def loadGlobal (m : Machine) (i : Nat) : Eval Progress := do
  match m.constant? i with
  | some (.symbol name) =>
    let s ← get
    match s.global? name with
    | some v => return .running (m.push v)
    | none =>
      return .failed m
        ((Fault.of (.unresolved (s.symbols.name name))).located m.top.location)
  | some _ => return m.broken .nameNotASymbol
  | none => return m.broken (.noConstant i)

/-- Bind the topmost value at the root and leave the name. -/
def defGlobal (m : Machine) (i : Nat) : Eval Progress := do
  match m.constant? i, m.pop? with
  | some (.symbol name), some (v, m) => do
    Eval.defineGlobal name v
    return .running (m.push (.symbol name))
  | some (.symbol _), none => return m.broken .stackUnderflow
  | some _, _ => return m.broken .nameNotASymbol
  | none, _ => return m.broken (.noConstant i)

/-! ### Failures -/

/-- Install a handler whose target lies at an offset from the next instruction. -/
def install (m : Machine) (kind : HandlerKind) (offset : Int) : Eval Progress := do
  let handler : Handler :=
    { kind
      callers := m.callers.length
      target := (m.top.ip + offset).toNat
      operands := m.operands.size
      callDepth := (← get).callDepth
      held := m.held.length }
  return .running { m with handlers := handler :: m.handlers }

/-! ### All instructions -/

/-- Run an instruction that has been fetched. -/
def execute (natives : NativeRunner) (back : Caller) (m : Machine) : Instruction → Eval Progress
  | .const i => return m.pushFound (m.constant? i) (.noConstant i)
  | .pushNil => return .running (m.push .nil)
  | .pushTrue => return .running (m.push (.bool true))
  | .pushFalse => return .running (m.push (.bool false))
  | .pop =>
    match m.pop? with
    | some (_, m) => return .running m
    | none => return m.broken .stackUnderflow
  | .endScope n =>
    match m.pop? with
    | some (v, m) => return .running ((m.drop n).push v)
    | none => return m.broken .stackUnderflow
  | .truncate n => return .running (m.shrink (m.top.bottom + n))
  | .loadLocal i => return m.pushFound (m.slot? i) .stackUnderflow
  | .storeLocal i =>
    match m.pop? with
    | some (v, m) =>
      let slot := m.top.bottom + i
      if slot < m.operands.size then return .running (m.withOperands (m.operands.setIfInBounds slot v))
      else return m.broken .stackUnderflow
    | none => return m.broken .stackUnderflow
  | .loadCapture i => return m.pushFound m.top.captured[i]? (.noCapture i)
  | .loadGlobal i => m.loadGlobal i
  | .defGlobal i => m.defGlobal i
  | .jump offset => do
    if offset < 0 then Eval.maybeCollect fun _ => m.roots
    return .running (m.jump offset)
  | .popJumpIfFalse offset =>
    match m.pop? with
    | some (v, m) => return .running (if v.isTruthy then m else m.jump offset)
    | none => return m.broken .stackUnderflow
  | .call argc site => do
    Eval.maybeCollect fun _ => m.roots
    m.call natives back argc site
  | .ret => m.ret
  | .raise =>
    match m.pop? with
    | some (v, m) => m.trying (Eval.raiseAt m.top.location v) fun _ p => p
    | none => return m.broken .stackUnderflow
  | .pushCatch offset => m.install .catching offset
  | .pushFinally offset => m.install .cleanup offset
  | .popHandler =>
    match m.handlers with
    | _ :: handlers => return .running { m with handlers }
    | [] => return m.broken .noHandler
  | .rethrow =>
    match m.held with
    | f :: held => return .failed { m with held } f
    | [] => return m.broken .nothingHeld
  | .closure i => m.closure i false
  | .macroClosure i => m.closure i true
  | .arith op site => m.binary site (Numeric.arith op)
  | .compare op site => m.binary site fun a b => (Numeric.compareNumbers op a b).map .bool
  | .buildList n => m.build n Eval.newList
  | .buildVector n => m.build n Eval.newVector
  | .buildMap n => m.build n fun vs => Eval.newMap (pairUp vs)
  | .buildSet n => m.build n Eval.newSet

/-- Fetch the next instruction and run it. -/
def step (natives : NativeRunner) (back : Caller) (m : Machine) : Eval Progress :=
  match m.top.code.code[m.top.ip]? with
  | some i => execute natives back (m.goto (m.top.ip + 1)) i
  | none => return m.broken .codeOutOfRange

end Machine

end TwinLisp
