import TwinLisp.Engine.Prelude
import TwinLisp.Proofs.Fuel.Library

/-!
# Evaluators that go further

An evaluator with more fuel, or with native functions that go further, goes further: whatever it was able
to finish before it finishes in the same way. So fuel has no bearing on what evaluation comes to, and only
says how much of it is carried out.

## Main definitions

* `Evaluator.Further`: the same backend, with no less fuel and native functions that go further.

## Main statements

* `Walker.further`: walkers go further with more fuel.
* `Eval.Further.machineCaller`, `Eval.Further.machineProgram`: and so does the machine.
* `Evaluator.Further.evaluate` and its like.
-/

namespace TwinLisp

/-! ### Walking over forms -/

/-- A walker that goes further, and that has no less fuel for loops. -/
structure Walker.Further (w x : Walker) : Prop where
  eval : ∀ p f, Eval.Further (w.eval p f) (x.eval p f)
  call : ∀ r, Eval.Further (w.call r) (x.call r)
  fuel : w.fuel ≤ x.fuel

namespace Walker.Further

open Eval.Further

variable {w x : Walker} (h : w.Further x)
include h

theorem value (p : WalkPlace) (f : Form) : Eval.Further (w.value p f) (x.value p f) :=
  (h.eval p f).bind fun _ => refl _

theorem values (p : WalkPlace) (fs : List Form) : Eval.Further (w.values p fs) (x.values p fs) := by
  induction fs generalizing p with
  | nil => exact refl _
  | cons f fs ih => exact (h.value p f).bind fun v => (ih _).bind fun _ => refl _

theorem body (p : WalkPlace) (fs : List Form) : Eval.Further (w.body p fs) (x.body p fs) := by
  induction fs with
  | nil => exact refl _
  | cons f fs ih =>
    cases fs with
    | nil => exact h.eval p f
    | cons g fs => exact (h.value p f).bind fun _ => ih

theorem callback : w.callback.Further x.callback := fun _ _ => andThen fun _ => h.call _

/-! #### Calls -/

theorem runOverload (self : Value) (c : Closure) (o : ClosureOverload) (held : List Node) {m n : Nat}
    (hmn : m ≤ n) (isFirst : Bool) (vs : List Value) :
    Eval.Further (w.runOverload self c o held m isFirst vs) (x.runOverload self c o held n isFirst vs) := by
  induction m generalizing n isFirst vs with
  | zero => exact outOfFuel _
  | succ m ih =>
    obtain ⟨n, rfl⟩ := Nat.exists_eq_add_of_le' (Nat.succ_le_of_lt hmn)
    refine andThen fun scope => andThen fun _ => (h.body _ _).bind fun o => ?_
    cases o with
    | value v => exact refl _
    | recur vs => exact ih (Nat.le_of_succ_le_succ hmn) false vs

theorem applyClosure (c : Closure) (r : CallRequest) :
    Eval.Further (w.applyClosure c r) (x.applyClosure c r) := by
  unfold Walker.applyClosure
  split
  · exact refl _
  · exact andThen fun _ => (h.runOverload _ _ _ _ h.fuel _ _).always _

theorem apply {m n : NativeRunner} (hn : m.Further n) (r : CallRequest) :
    Eval.Further (Walker.apply m w r) (Walker.apply n x r) := by
  unfold Walker.apply
  dsimp only
  split
  · refine andThen fun f => ?_
    split
    · exact (hn h.callback _ _).attributed _ _
    · exact (h.applyClosure _ r).blaming _
    · exact refl _
  · exact refl _
  · exact refl _
  · exact refl _
  · exact refl _
  · exact refl _

/-! #### Special forms -/

theorem bindInOrder (p : WalkPlace) (bindings : List Binding) :
    Eval.Further (w.bindInOrder p bindings) (x.bindInOrder p bindings) := by
  induction bindings with
  | nil => exact refl _
  | cons b rest ih =>
    exact (h.value p b.2).bind fun _ => andThen fun _ => andThen fun _ => ih.bind fun _ => refl _

theorem evalLet (p : WalkPlace) (f : Form) : Eval.Further (w.evalLet p f) (x.evalLet p f) :=
  andThen fun _ => andThen fun _ => (h.bindInOrder _ _).bind fun _ => h.body _ _

theorem runLoop (p : WalkPlace) (names : List Symbol) (forms : List Form) {m n : Nat} (hmn : m ≤ n)
    (scope : ScopeId) :
    Eval.Further (w.runLoop p names forms m scope) (x.runLoop p names forms n scope) := by
  induction m generalizing n scope with
  | zero => exact outOfFuel _
  | succ m ih =>
    obtain ⟨n, rfl⟩ := Nat.exists_eq_add_of_le' (Nat.succ_le_of_lt hmn)
    refine (h.body _ _).bind fun o => ?_
    cases o with
    | value v => exact refl _
    | recur vs =>
      exact andThen fun scope => andThen fun _ => andThen fun _ => ih (Nat.le_of_succ_le_succ hmn) scope

theorem evalLoop (p : WalkPlace) (f : Form) : Eval.Further (w.evalLoop p f) (x.evalLoop p f) :=
  andThen fun _ => andThen fun _ => (h.bindInOrder _ _).bind fun _ => h.runLoop _ _ _ h.fuel _

theorem evalDefinition (p : WalkPlace) (f : Form) :
    Eval.Further (w.evalDefinition p f) (x.evalDefinition p f) := by
  refine andThen fun d => ?_
  obtain ⟨name, value⟩ := d
  cases value with
  | none => exact refl _
  | some value => exact (h.value p value).bind fun _ => refl _

theorem handled (p : WalkPlace) (handler : Option (String × List Form)) (forms : List Form) :
    Eval.Further (w.handled p handler forms) (x.handled p handler forms) := by
  refine andThen fun s => (h.body p forms).attempt.bind fun r => ?_
  cases r with
  | ok o => exact refl _
  | error f =>
    cases handler with
    | none => exact refl _
    | some handler =>
      dsimp only
      split
      · exact refl _
      · exact andThen fun _ => andThen fun _ => andThen fun _ => andThen fun _ => andThen fun _ => h.body _ _

theorem cleanedUp (p : WalkPlace) (cleanup : List Form) {y z : Eval Outcome} (hyz : Eval.Further y z) :
    Eval.Further (w.cleanedUp p cleanup y) (x.cleanedUp p cleanup z) := by
  refine hyz.attempt.bind fun r => ?_
  split
  · exact refl _
  · exact (h.body _ _).bind fun _ => refl _

theorem evalAttempt (p : WalkPlace) (f : Form) : Eval.Further (w.evalAttempt p f) (x.evalAttempt p f) := by
  refine andThen fun shape => ?_
  have handled := h.handled p shape.handlers.head? shape.body
  dsimp only
  split
  · exact h.cleanedUp p _ handled
  · exact handled

theorem evalSpecial (p : WalkPlace) (kind : SpecialForm) (f : Form) :
    Eval.Further (w.evalSpecial p kind f) (x.evalSpecial p kind f) := by
  unfold Walker.evalSpecial
  dsimp only
  cases kind with
  | conditional =>
    dsimp only
    split
    · refine (h.value _ _).bind fun v => ?_
      split
      · exact h.eval _ _
      · exact refl _
    · exact refl _
  | sequence => exact h.body _ _
  | letBinding => exact h.evalLet _ _
  | loop => exact h.evalLoop _ _
  | recur => exact (h.values _ _).bind fun _ => refl _
  | definition => exact (h.evalDefinition _ _).bind fun _ => refl _
  | raise => exact (h.value _ _).bind fun _ => refl _
  | attempt => exact h.evalAttempt _ _
  | _ => exact refl _

theorem step (p : WalkPlace) (f : Form) : Eval.Further (w.step p f) (x.step p f) := by
  unfold Walker.step
  split
  · exact refl _
  · exact refl _
  · dsimp only
    split
    · exact h.evalSpecial _ _ _
    · refine bind ?_ fun _ => refl _
      exact (h.value _ _).bind fun _ => (h.values _ _).bind fun _ => h.call _
  · exact (h.values _ _).bind fun _ => refl _
  · exact (h.values _ _).bind fun _ => refl _
  · exact (h.values _ _).bind fun _ => refl _

end Walker.Further

/-- **A walker goes further with more fuel.** -/
theorem Walker.further {natives natives' : NativeRunner} (hn : natives.Further natives') {m n : Nat}
    (hmn : m ≤ n) : (walker natives m).Further (walker natives' n) := by
  induction m generalizing n with
  | zero => exact ⟨fun _ _ => .outOfFuel _, fun _ => .outOfFuel _, Nat.zero_le _⟩
  | succ m ih =>
    obtain ⟨n, rfl⟩ := Nat.exists_eq_add_of_le' (Nat.succ_le_of_lt hmn)
    have hmn := Nat.le_of_succ_le_succ hmn
    exact ⟨fun p f => (ih hmn).step p f, fun r => (ih hmn).apply hn r, hmn⟩

/-! ### The machine -/

namespace Eval.Further

variable {natives natives' : NativeRunner} (hn : natives.Further natives')
include hn

section

variable {back back' : Caller} (hb : back.Further back')
include hb

theorem machineCallAt (m : Machine) (argc site : Nat) :
    Further (m.call natives back argc site) (m.call natives' back' argc site) := by
  unfold Machine.call
  split
  · exact refl _
  · dsimp only
    split
    · refine andThen fun r => ?_
      split
      · exact refl _
      · exact refl _
      · exact (((hn hb _ _).attributed _ _).lending _).bind fun _ => refl _
      · exact refl _
    · exact refl _

/-- Calls are the only instructions that may run out of fuel. -/
theorem machineStep (m : Machine) : Further (m.step natives back) (m.step natives' back') := by
  unfold Machine.step
  cases m.top.code.code[m.top.ip]? with
  | none => exact refl _
  | some i =>
    cases i with
    | call argc site => exact andThen fun _ => machineCallAt hn hb _ _ _
    | _ => exact refl _

theorem machineRun {k n : Nat} (hkn : k ≤ n) (m : Machine) :
    Further (Machine.run natives back k m) (Machine.run natives' back' n m) := by
  induction k generalizing n m with
  | zero => exact outOfFuel _
  | succ k ih =>
    obtain ⟨n, rfl⟩ := Nat.exists_eq_add_of_le' (Nat.succ_le_of_lt hkn)
    have hkn := Nat.le_of_succ_le_succ hkn
    refine (machineStep hn hb m).bind fun p => ?_
    cases p with
    | running m => exact ih hkn m
    | finished m v => exact refl _
    | failed m f => exact andThen fun m => ih hkn m

theorem machineFrame {k n : Nat} (hkn : k ≤ n) (make : Nat → Eval (Frame × Array Value)) :
    Further (Machine.runFrame natives back k make) (Machine.runFrame natives' back' n make) :=
  andThen fun _ => andThen fun _ => machineRun hn hb hkn _

theorem machineCall {k n : Nat} (hkn : k ≤ n) (callee : Value) (args : List Value) (site : Location) :
    Further (Machine.callValue natives back k callee args site)
      (Machine.callValue natives' back' n callee args site) := by
  refine andThen fun c => ?_
  cases c with
  | compiled p captured => exact machineFrame hn hb hkn _
  | native n => exact (hn hb _ _).attributed _ _
  | data => exact refl _

end

theorem machineCaller {k n : Nat} (hkn : k ≤ n) :
    (Machine.caller natives k).Further (Machine.caller natives' n) := by
  induction k generalizing n with
  | zero => exact fun _ _ => outOfFuel _
  | succ k ih =>
    obtain ⟨n, rfl⟩ := Nat.exists_eq_add_of_le' (Nat.succ_le_of_lt hkn)
    have hkn := Nat.le_of_succ_le_succ hkn
    exact fun callee args => andThen fun _ => machineCall hn (ih hkn) hkn _ _ _

theorem machineProgram {k n : Nat} (hkn : k ≤ n) (f : Form) :
    Further (Machine.program natives k f) (Machine.program natives' n f) := by
  refine andThen fun p => ?_
  cases p.selectArity? 0 with
  | none => exact refl _
  | some code => exact machineFrame hn (machineCaller hn hkn) hkn _

end Eval.Further

/-! ### Evaluators -/

/-- The same backend, with no less fuel and with native functions that go further. -/
structure Evaluator.Further (e e' : Evaluator) : Prop where
  backend : e'.backend = e.backend
  natives : e.natives.Further e'.natives
  fuel : e.fuel ≤ e'.fuel

namespace Evaluator.Further

open Eval.Further

variable {e e' : Evaluator} (h : e.Further e')
include h

theorem call : e.call.Further e'.call := by
  obtain ⟨backend, natives, fuel⟩ := e
  obtain ⟨backend', natives', fuel'⟩ := e'
  obtain ⟨rfl, hn, hf⟩ := h
  cases backend' with
  | treeWalk => exact (Walker.further hn hf).callback
  | machine => exact machineCaller hn hf

theorem run (f : Form) : Eval.Further (e.run f) (e'.run f) := by
  obtain ⟨backend, natives, fuel⟩ := e
  obtain ⟨backend', natives', fuel'⟩ := e'
  obtain ⟨rfl, hn, hf⟩ := h
  cases backend' with
  | treeWalk => exact (Walker.further hn hf).value _ f
  | machine => exact machineProgram hn hf f

omit h in
theorem lastOf {evaluate evaluate' : Form → Eval Value}
    (he : ∀ f, Eval.Further (evaluate f) (evaluate' f)) (fs : List Form) :
    Eval.Further (Evaluator.lastOf evaluate fs) (Evaluator.lastOf evaluate' fs) :=
  foldlM (fun _ f => he f) fs _

theorem evaluateWithin {m n : Nat} (hmn : m ≤ n) (f : Form) :
    Eval.Further (e.evaluateWithin m f) (e'.evaluateWithin n f) := by
  induction m generalizing n f with
  | zero => exact outOfFuel _
  | succ m ih =>
    obtain ⟨n, rfl⟩ := Nat.exists_eq_add_of_le' (Nat.succ_le_of_lt hmn)
    refine andThen fun _ => andThen fun _ => andThen fun _ => (always ?_ _).blaming _
    refine (expandHead h.call f).bind fun head => ?_
    split
    · exact lastOf (ih (Nat.le_of_succ_le_succ hmn)) _
    · exact (expand h.call head).bind fun _ => andThen fun _ => andThen fun _ => h.run _

/-- **A form that can be evaluated with some fuel can be evaluated with more**, and to the same end. -/
theorem evaluate (f : Form) : Eval.Further (e.evaluate f) (e'.evaluate f) :=
  h.evaluateWithin h.fuel f

theorem evaluateText (source : String) : Eval.Further (e.evaluateText source) (e'.evaluateText source) :=
  andThen fun _ => lastOf h.evaluate _

theorem evaluateFile (path : String) (contents : Except String String) :
    Eval.Further (e.evaluateFile path contents) (e'.evaluateFile path contents) := by
  cases contents with
  | ok source => exact h.evaluateText source
  | error reason => exact refl _

theorem apply (callee : Value) (args : List Value) :
    Eval.Further (e.apply callee args) (e'.apply callee args) :=
  andThen fun _ => (h.call callee args).always _

theorem applyNamed (name : String) (args : List Value) :
    Eval.Further (e.applyNamed name args) (e'.applyNamed name args) := by
  refine andThen fun s => ?_
  split
  · exact h.apply _ _
  · exact refl _

theorem start (prelude : String) : Eval.Further (e.start prelude) (e'.start prelude) :=
  andThen fun _ => (h.evaluateText _).bind fun _ => refl _

end Evaluator.Further

end TwinLisp
