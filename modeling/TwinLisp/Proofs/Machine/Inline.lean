import TwinLisp.Machine.Step

/-!
# Core operators inline

The instruction for a core operator does to two operands what a call of the built-in function of that name
does, also where that fails, and blames the same location.

## Main definitions

* `CoreOp.builtin`: the built-in function with the name of a core operator.

## Main statements

* `Machine.call_eq_inline`: calling the function is running the instruction.
-/

namespace TwinLisp

namespace CoreOp

/-- The operator as written in source. -/
def name : CoreOp → String
  | .arith op => op.name
  | .compare op => op.name

/-- The built-in function of that name. -/
def builtin : CoreOp → Builtin
  | .arith .add => .add
  | .arith .sub => .sub
  | .arith .mul => .mul
  | .arith .div => .div
  | .compare .lt => .lt
  | .compare .gt => .gt
  | .compare .le => .le
  | .compare .ge => .ge

/-- What the operator does to two values. -/
def apply : CoreOp → Value → Value → Except NumericFault Value
  | .arith op, a, b => Numeric.arith op a b
  | .compare op, a, b => (Numeric.compareNumbers op a b).map .bool

theorem name_builtin (op : CoreOp) : op.builtin.name = op.name := by
  cases op with
  | arith op => cases op <;> rfl
  | compare op => cases op <;> rfl

theorem ofName?_name (op : CoreOp) : ofName? op.name = some op := by
  cases op with
  | arith op => cases op <;> rfl
  | compare op => cases op <;> rfl

end CoreOp

/-! ### Built-in functions of two arguments -/

namespace Library

open Numeric

variable {α β : Type}

/-- Nothing is done after a failure. -/
theorem settle_error_bind (i : Nat) (e : NumericFault) (f : α → Eval β) :
    (settle i (.error e) >>= f) = settle i (.error e) := by
  obtain ⟨blame, cause⟩ := e
  cases blame <;> rfl

/-- A check before an operation that begins with the same check changes nothing. -/
theorem settle_check {check : Except NumericFault Unit} (i : Nat) (operation : Except NumericFault α)
    (h : ∀ e, check = .error e → operation = .error e) :
    (do settle i check; settle i operation) = settle i operation := by
  cases check with
  | error e => rw [h e rfl, settle_error_bind]
  | ok u => rfl

theorem fold_two (op : ArithOp) (a b : Value) : fold op a [b] = settle 0 (arith op a b) := by
  have once : foldFrom op a 1 [b] = settle 0 (arith op a b) := bind_pure _
  unfold fold
  rw [once]
  refine settle_check 0 _ fun e he => ?_
  unfold arith
  rw [he]
  rfl

theorem chain_two (bi : Builtin) (op : CompareOp) (a b : Value) :
    chain bi op [a, b] = settle 0 ((compareNumbers op a b).map .bool) := by
  have once : (do return Value.bool (← chainFrom op 0 a [b])) =
      settle 0 ((compareNumbers op a b).map .bool) := by
    unfold chainFrom chainFrom
    cases compareNumbers op a b with
    | error e => simp only [settle_error_bind, Except.map]
    | ok r => simp [settle, Except.map]
  unfold chain
  dsimp only
  rw [once]
  refine settle_check 0 _ fun e he => ?_
  unfold compareNumbers
  rw [he]
  rfl

/-- A core operator has two arguments settled as one operation. -/
theorem run_core (call : Caller) (op : CoreOp) (a b : Value) :
    run call op.builtin [a, b] = settle 0 (op.apply a b) := by
  cases op with
  | arith op => cases op <;> exact fold_two _ a b
  | compare op => cases op with
    | lt => exact chain_two .lt .lt a b
    | gt => exact chain_two .gt .gt a b
    | le => exact chain_two .le .le a b
    | ge => exact chain_two .ge .ge a b

/-- Settling an operation does not collect. -/
theorem withoutCollection_settle (i : Nat) (x : Except NumericFault α) :
    Eval.withoutCollection (settle i x) = settle i x := by
  funext s
  cases x with
  | ok a => rfl
  | error e =>
    obtain ⟨blame, cause⟩ := e
    cases blame <;> rfl

end Library

/-- **Calling a core operator is settling its operation.** -/
theorem Eval.runNative_core (hosts : HostTable) (call : Caller) (op : CoreOp) (a b : Value) :
    runNative hosts call (.builtin op.builtin) [a, b] = Library.settle 0 (op.apply a b) := by
  unfold runNative
  dsimp only
  rw [Library.run_core, Library.withoutCollection_settle]

/-! ### The instruction -/

namespace Machine

/-- What an instruction for a core operator does. -/
theorem execute_core (natives : NativeRunner) (back : Caller) (m : Machine) (op : CoreOp) (site : Nat) :
    m.execute natives back (op.instruction site) = m.binary site op.apply := by
  cases op <;> rfl

/-- What was put on the operands is on top of them. -/
theorem topmost?_append (m : Machine) (operands vs : Array Value) :
    (m.withOperands (operands ++ vs)).topmost? vs.size = some vs.toList := by
  have all : (m.withOperands (operands ++ vs)).operands = operands ++ vs := rfl
  have below : (operands ++ vs).size - vs.size = operands.size := by simp
  unfold Machine.topmost?
  dsimp only
  rw [all, below, if_pos (by simp)]
  simp

/-- What was put on the operands is taken off again. -/
theorem drop_append (m : Machine) (operands vs : Array Value) :
    (m.withOperands (operands ++ vs)).drop vs.size = m.withOperands operands := by
  show m.withOperands ((operands ++ vs).shrink ((operands ++ vs).size - vs.size)) = m.withOperands operands
  simp

theorem pop?_push (m : Machine) (operands : Array Value) (v : Value) :
    (m.withOperands (operands.push v)).pop? = some (v, m.withOperands operands) := by
  have top : (m.withOperands (operands.push v)).operands.back? = some v := Array.back?_push
  unfold Machine.pop?
  rw [top]
  show some (v, m.withOperands (operands.push v).pop) = _
  rw [Array.pop_push]

/-- What is settled in a call does not look at the operands. -/
theorem attempt_settle (l : Location) (args : List Location) (i : Nat) (x : Except NumericFault Value)
    (s : Session) : ∃ r, ∀ operands, Eval.attempt (Eval.attributed l args (Library.settle i x)) { s with operands } =
      .ok r { s with operands } := by
  cases x with
  | ok v => exact ⟨.ok v, fun _ => rfl⟩
  | error e =>
    obtain ⟨blame, cause⟩ := e
    let table := Attribution.ofArguments l args
    cases blame with
    | operand j => exact ⟨.error (((Fault.of cause).orAt (table.argument (i + j))).orAt l), fun _ => rfl⟩
    | operation => exact ⟨.error (((Fault.of cause).orAt table.site).orAt l), fun _ => rfl⟩

/-- Lending makes no difference to a computation that is the same on any operands. -/
theorem lending_eq_pushing {x : Eval Value} {m : Machine} {s : Session}
    (same : ∃ r : Except Fault Value, ∀ operands, Eval.attempt x { s with operands } = .ok r { s with operands }) :
    m.lending x s = m.pushing x s := by
  obtain ⟨r, same⟩ := same
  have lent : Eval.lending m.operands x s = .ok (m.operands, r) s := by
    have ran := same m.operands
    unfold Eval.attempt at ran
    unfold Eval.lending
    cases hx : x { s with operands := m.operands } with
    | ok a t =>
      rw [hx] at ran
      cases ran
      rfl
    | error e t =>
      rw [hx] at ran
      cases e <;> cases ran
      rfl
  unfold Machine.lending Machine.pushing Machine.trying
  rw [Eval.bind_eq_of_ok lent, Eval.bind_eq_of_ok (same s.operands)]
  cases r <;> rfl

/-- A native function is run as such. -/
theorem callee_native {s : Session} {a : Address} {f : Function} {n : Native}
    (hf : s.heap.get? a = some (.function f)) (body : f.body = .native n) (l : Location) :
    Callee.of (.ref .function a) l s = .ok (.native n) s := by
  have function : Eval.function? (.ref .function a) s = .ok (some f) s :=
    Eval.bind_eq_of_ok (Eval.object_eq_of_get? hf)
  have callable : Eval.blaming l (Eval.callable (.ref .function a)) s = .ok f s := by
    unfold Eval.blaming Eval.mapFault Eval.callable
    rw [Eval.bind_eq_of_ok function]
    rfl
  unfold Callee.of
  dsimp only
  rw [Eval.bind_eq_of_ok callable, body]
  rfl

/-- **A call of the built-in function is its instruction.** With the function beneath its two arguments, the
call goes on, or fails, as the instruction does without it. -/
theorem call_eq_inline (hosts : HostTable) (back : Caller) (m : Machine) (op : CoreOp) {site : Nat}
    (hsite : site < m.top.code.sites.size) (operands : Array Value) {s : Session} {a : Address}
    {f : Function} (hf : s.heap.get? a = some (.function f))
    (body : f.body = .native (.builtin op.builtin)) (x y : Value) :
    (m.withOperands (operands ++ #[.ref .function a, x, y])).call (Eval.runNative hosts) back 2 site s =
      (m.withOperands (operands ++ #[x, y])).execute (Eval.runNative hosts) back (op.instruction site) s := by
  obtain ⟨sites, found⟩ : ∃ sites, m.top.code.sites[site]? = some sites :=
    ⟨_, Array.getElem?_eq_getElem hsite⟩
  have called : (m.withOperands (operands ++ #[.ref .function a, x, y])).site? site = some sites := found
  have left : (m.withOperands operands).site? site = some sites := found
  have three := topmost?_append m operands #[.ref .function a, x, y]
  have second : (m.withOperands (operands ++ #[x, y])).pop? = some (y, m.withOperands (operands.push x)) := by
    have pushed : operands ++ #[x, y] = (operands.push x).push y := by
      rw [← Array.toList_inj]
      simp
    rw [pushed, pop?_push]
  rw [execute_core]
  unfold Machine.call Machine.binary
  rw [called, second]
  dsimp only
  rw [pop?_push]
  dsimp only
  rw [show 2 + 1 = #[Value.ref .function a, x, y].size from rfl, three, left]
  dsimp only
  have callee : Eval.attempt (Callee.of (.ref .function a) (sites.head?.getD .unknown)) s =
      .ok (.ok (.native (.builtin op.builtin))) s := by
    unfold Eval.attempt
    rw [callee_native hf body]
  rw [Eval.bind_eq_of_ok callee]
  dsimp only
  rw [Eval.runNative_core, drop_append]
  exact lending_eq_pushing (attempt_settle ..)

end Machine

end TwinLisp
