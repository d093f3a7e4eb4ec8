import TwinLisp.Engine.Evaluator
import TwinLisp.Proofs.Conduct.Walker
import TwinLisp.Proofs.Machine.Run

/-!
# Evaluation obeys

Both backends run checked forms and call functions obediently. Around them, evaluation counts the top-level
forms in progress, keeps what is put into code, and has no call in progress at the end of each form. All of
this is back in place afterwards if no call was in progress before.

## Main definitions

* `Backend.Allowed`: a policy lets a backend run checked forms.
* `Session.Settled`: no call is in progress.

## Main statements

* `Obeys.evaluatorCall`, `Obeys.evaluatorRun`: calls and checked forms obey.
* `Evaluator.ends_evaluateWithin`: the evaluation of a top-level form ends well in a settled session.
-/

namespace TwinLisp

/-! ### Backends -/

/-- The policy lets the backend run checked forms. Operands of the machine may be missing. -/
def Backend.Allowed (P : Policy) : Backend → Prop
  | .treeWalk => P.Walks
  | .machine => P.Runs False ∧ ∀ limit, P.mayFail (.codeTooLarge limit)

variable {P : Policy} {e : Evaluator}

namespace Obeys

variable (hb : e.backend.Allowed P) (hn : e.natives.Obedient P)
include hb hn

theorem evaluatorCall : e.call.Obedient P := by
  obtain ⟨backend, natives, fuel⟩ := e
  cases backend with
  | treeWalk => exact treeWalkCall hb hn fuel
  | machine => exact machineCaller hb.1 hn fuel

theorem evaluatorRun {f : Form} (hf : f.Accepted none false) : Obeys P (e.run f) ⊤ := by
  obtain ⟨backend, natives, fuel⟩ := e
  cases backend with
  | treeWalk => exact treeWalkRun hb hn fuel hf
  | machine => exact machineProgram hb.1 hb.2 hn fuel hf

end Obeys

/-! ### Top-level forms -/

namespace Session

/-- No call is in progress, and code is kept only while a top-level form is evaluated. -/
structure Settled (s : Session) : Prop where
  callDepth : s.callDepth = 0
  floor : s.nesting = 0 → s.heap.floor = none

variable {s t : Session}

theorem Settled.leads (h : s.Settled) (ht : s.Leads P t) : t.Settled := by
  refine ⟨ht.callDepth.trans h.callDepth, fun outermost => ?_⟩
  rw [ht.nesting] at outermost
  rw [ht.floor]
  exact h.floor outermost

theorem Settled.openTopLevel (h : s.Settled) : s.openTopLevel.Settled :=
  ⟨h.callDepth, fun outermost => absurd outermost (Nat.succ_ne_zero _)⟩

theorem evolves_openTopLevel (s : Session) : Evolves P s s.openTopLevel := by
  unfold Session.openTopLevel
  dsimp only
  split
  · exact (Evolves.single (.setFloor (some s.heap.nextHandle))).tail
      (.counters s.callDepth (s.nesting + 1) s.attribution)
  · exact .single (.counters s.callDepth (s.nesting + 1) s.attribution)

theorem evolves_closeTopLevel (s : Session) : Evolves P s s.closeTopLevel := by
  unfold Session.closeTopLevel
  dsimp only
  split
  · exact (Evolves.single (.setFloor none)).tail
      (.counters 0 (s.nesting - 1) s.attribution)
  · exact .single (.counters 0 (s.nesting - 1) s.attribution)

theorem coincides_closeTopLevel (s : Session) : s.Coincides s.closeTopLevel := by
  unfold Session.closeTopLevel
  dsimp only
  split <;> exact ⟨rfl, rfl, rfl⟩

/-- **What is opened for a top-level form is closed again at its end.** -/
theorem Settled.closed (h : s.Settled) (ht : s.openTopLevel.Leads P t) : s.Leads P t.closeTopLevel := by
  have nesting : t.nesting - 1 = s.nesting := by
    rw [ht.nesting]
    rfl
  refine ⟨⟨?_, ht.inhibited, nesting, ht.attribution, ?_, ht.operands⟩, h.callDepth.symm⟩
  · exact ((evolves_openTopLevel s).trans ht.evolves).trans (evolves_closeTopLevel t)
  · unfold Session.closeTopLevel
    dsimp only
    rw [nesting]
    by_cases outermost : s.nesting = 0
    · rw [outermost, h.floor outermost]
      rfl
    · have inner : (s.nesting == 0) = false := by simpa using outermost
      have floor := ht.floor
      unfold Session.openTopLevel at floor
      rw [inner] at floor ⊢
      exact floor

end Session

namespace Evaluator

variable (hb : e.backend.Allowed P) (hn : e.natives.Obedient P) (hf : ∀ c, P.mayFail c)

/-- Forms in order end well if each of them does. -/
theorem ends_lastOf {evaluate : Form → Eval Value} {s : Session} (hs : s.Sound P) (settled : s.Settled)
    (h : ∀ f (s : Session), s.Sound P → s.Settled → Ends P s ⊤ (evaluate f s)) (fs : List Form) :
    Ends P s ⊤ (lastOf evaluate fs s) := by
  unfold lastOf
  generalize Value.nil = v
  induction fs generalizing s v with
  | nil => exact .ok (.refl s) trivial
  | cons f fs ih =>
    rw [List.foldlM_cons]
    exact .bind hs (h f s hs settled) fun v t _ ht sound _ => ih sound (settled.leads ht) v

include hb hn hf

/-- **The evaluation of a top-level form ends well**, also as part of another one. -/
theorem ends_evaluateWithin (depth : Nat) (f : Form) {s : Session} (hs : s.Sound P)
    (settled : s.Settled) : Ends P s ⊤ (e.evaluateWithin depth f s) := by
  have expands : P.Expands := ⟨fun _ _ _ => hf _⟩
  induction depth generalizing f s with
  | zero => exact Session.Strays.refl s
  | succ depth ih =>
    unfold evaluateWithin
    refine .bind hs (Obeys.checkAlive s hs) fun _ t _ ht hs _ => ?_
    have settled := settled.leads ht
    refine .bind hs (Obeys.maybeCollect _ t hs) fun _ u _ hu hs _ => ?_
    have settled := settled.leads hu
    refine Ends.mapFault (s := u) (x := fun s => Eval.always _ _ s.openTopLevel) ?_ fun f _ => hf _
    refine .always (Session.evolves_openTopLevel u) ?_ Session.coincides_closeTopLevel fun v hv =>
      settled.closed hv
    have hs := hs.evolves (Session.evolves_openTopLevel u)
    have settled := settled.openTopLevel
    generalize u.openTopLevel = w at hs settled
    have call := Obeys.evaluatorCall hb hn
    refine .bind hs (Obeys.expandHead call f w hs) fun head t _ ht hs _ => ?_
    split
    · exact ends_lastOf hs (settled.leads ht) (fun f s hs settled => ih f hs settled) _
    · refine .bind hs (Obeys.expand call head t hs) fun expanded u _ _ hs _ => ?_
      refine (Obeys.get fun v _ => ?_ : Obeys P _ ⊤) u hs
      cases checked : check v.limits.formDepth expanded with
      | error failure =>
        have failed : Obeys P (Eval.ofExcept (.error failure) : Eval Unit) fun _ => False := .fail (hf _)
        exact failed.bind fun _ => False.elim
      | ok passed => exact Obeys.evaluatorRun hb hn (accepted_of_check checked)

/-- The evaluation of a form ends well. -/
theorem ends_evaluate (f : Form) {s : Session} (hs : s.Sound P) (settled : s.Settled) :
    Ends P s ⊤ (e.evaluate f s) := ends_evaluateWithin hb hn hf e.fuel f hs settled

/-- The evaluation of a text ends well, and so does that of a file. -/
theorem ends_evaluateText (source : String) {s : Session} (hs : s.Sound P) (settled : s.Settled) :
    Ends P s ⊤ (e.evaluateText source s) := by
  have forms : Obeys P (forms source) ⊤ := by
    unfold Evaluator.forms
    split
    · exact .done _
    · exact .fail (hf _)
  refine .bind hs (forms s hs) fun fs t _ ht hs _ => ?_
  exact ends_lastOf hs (settled.leads ht) (fun f s hs settled => ends_evaluate hb hn hf f hs settled) fs

theorem ends_evaluateFile (path : String) (contents : Except String String) {s : Session}
    (hs : s.Sound P) (settled : s.Settled) : Ends P s ⊤ (e.evaluateFile path contents s) := by
  cases contents with
  | ok source => exact ends_evaluateText hb hn hf source hs settled
  | error reason => exact Obeys.failWith (hf _) s hs

omit hf in
/-- A call from outside ends well, and so does a call by name. -/
theorem ends_apply (callee : Value) (args : List Value) {s : Session} (hs : s.Sound P)
    (settled : s.Settled) : Ends P s ⊤ (e.apply callee args s) := by
  refine .bind hs (Obeys.checkAlive s hs) fun _ t _ ht hs _ => ?_
  have settled := settled.leads ht
  refine .always .refl (Obeys.evaluatorCall hb hn callee args t hs) (fun u => ⟨rfl, rfl, rfl⟩)
    fun u hu => ?_
  exact ⟨hu.toDrifts.setCallDepth 0, settled.callDepth.symm⟩

theorem ends_applyNamed (name : String) (args : List Value) {s : Session} (hs : s.Sound P)
    (settled : s.Settled) : Ends P s ⊤ (e.applyNamed name args s) := by
  unfold Evaluator.applyNamed
  rw [Eval.get_bind]
  cases (s.symbols.find? name).bind s.global? with
  | some callee => exact ends_apply hb hn callee args hs settled
  | none => exact Obeys.failWith (hf _) s hs

end Evaluator

end TwinLisp
