import TwinLisp.Proofs.Transparency.Evaluation

/-!
# Evaluation that looks at the objects in code

Macros may put objects into code, which mentions them by handle. A *vigilant* evaluator makes sure of each
one before it evaluates a form: that its handle stands for what it stood for when the run began, and that
this is still there. Compiled code holds the objects themselves, and so a vigilant machine looks at them
before each instruction. If anything is wrong, a vigilant evaluator stops, in whatever way it was told to.

It never does: a vigilant evaluator does the same as any other.

## Main definitions

* `Heap.has`: whether a value is there.
* `Heap.vouchesFor`: whether a handle stands for the same as before, and that is there.
* `Evaluator.vigilant`: the means of a vigilant evaluator.

## Main statements

* `Evaluator.vigilant_match`: vigilance makes no difference.
-/

namespace TwinLisp

namespace Heap

/-- Whether a value is there: what it refers to is an object of its kind. -/
def has (h : Heap) : Value → Bool
  | .ref k a => (h.get? a).any fun o => o.kind == k
  | _ => true

/-- Whether a handle stands for a value that is there, and that it stood for in `since`. -/
def vouchesFor (h since : Heap) (n : Nat) : Bool :=
  match h.embedded? n with
  | some v => h.has v && (since.nextHandle ≤ n || since.embedded? n == some v)
  | none => false

end Heap

/-- Do `x` if the session passes the check, and stop otherwise. -/
def Eval.insisting {α : Type} (lost : Stop) (check : Session → Bool) (x : Eval α) : Eval α := fun s =>
  if check s then x s else .error lost s

/-- The walker that makes sure of all objects in a form before it evaluates it. -/
def vigilantWalker (lost : Stop) (since : Heap) (natives : NativeRunner) : Nat → Walker
  | 0 => walker natives 0
  | fuel + 1 =>
    let parts := vigilantWalker lost since natives fuel
    { eval := fun p f =>
        Eval.insisting lost (fun s => f.handles.all (s.heap.vouchesFor since)) (parts.step p f)
      call := parts.apply natives
      fuel := fuel }

namespace Machine

/-- Run a machine that makes sure of all constants of its code before each instruction. -/
def vigilantRun (lost : Stop) (natives : NativeRunner) (back : Caller) : Nat → Machine → Eval Value
  | 0, _ => throw .outOfFuel
  | fuel + 1, m =>
    Eval.insisting lost (fun s => m.top.code.constants.all s.heap.has)
      (turn natives back (vigilantRun lost natives back fuel) m)

/-- Call functions from native code on vigilant machines. -/
def vigilantCaller (lost : Stop) (natives : NativeRunner) : Nat → Caller
  | 0 => caller natives 0
  | fuel + 1 => fun callee args => do
    let back := vigilantCaller lost natives fuel
    callBy (vigilantRun lost natives back fuel) natives back callee args (← Eval.callSite)

end Machine

/-- The means of a vigilant evaluator. What it finds when a run or a call begins is what it insists on. -/
def Evaluator.vigilant (lost : Stop) (e : Evaluator) : Means where
  call callee args :=
    match e.backend with
    | .treeWalk => fun s => (vigilantWalker lost s.heap e.natives e.fuel).callback callee args s
    | .machine => Machine.vigilantCaller lost e.natives e.fuel callee args
  run f :=
    match e.backend with
    | .treeWalk => fun s =>
      (vigilantWalker lost s.heap e.natives e.fuel).value ⟨.unknown, Scopes.root, []⟩ f s
    | .machine => Eval.insisting lost (fun s => f.handles.all (s.heap.vouchesFor s.heap))
      (Machine.programBy
        (Machine.vigilantRun lost e.natives (Machine.vigilantCaller lost e.natives e.fuel) e.fuel) f)
  depth := e.fuel

/-! ### Nothing is ever lost -/

variable {e : Terms} {w : World} {s t : Session}

/-- What corresponds to something is there. -/
theorem Heap.Match.has {S : Setting} {h k : Heap} (hm : h.Match S w k) {v v' : Value} (hv : v.Match w v') :
    h.has v = true := by
  cases hv with
  | ref l hl =>
    obtain ⟨o, -, ho, -, kind, -⟩ := hm.objects hl
    simp [Heap.has, ho, kind]
  | _ => rfl

/-- A handle that may be used stands for what it stood for. -/
theorem Heap.Match.vouchesFor {S : Setting} {h k : Heap} (hm : h.Match S w k) {n : Nat} (hn : w.handle n) :
    h.vouchesFor S.since n = true := by
  obtain ⟨-, v, v', hv, -, hvv⟩ := hm.handles hn
  have same : S.since.nextHandle ≤ n ∨ S.since.embedded? n = some v := by
    refine (Nat.lt_or_ge n S.since.nextHandle).symm.imp_right fun old => hm.since.embedded old hv
  simpa [Heap.vouchesFor, hv, hm.has hvv] using same

theorem Heap.Match.vouchesForAll {S : Setting} {h k : Heap} (hm : h.Match S w k) {f : Form}
    (hf : f.Mentions w.handle) : f.handles.all (h.vouchesFor S.since) = true :=
  List.all_eq_true.2 fun n hn => hm.vouchesFor (hf n hn)

/-- A check that the first session passes makes no difference. -/
theorem Agree.insisting {S : Setting} {K : Node → Prop} {α β : Type} {R : Related α β} {x : Eval α}
    {y : Eval β} (lost : Stop) (check : Session → Bool) (passed : check s = true)
    (h : Agree S K w s R (x s) (y t)) : Agree S K w s R (Eval.insisting lost check x s) (y t) := by
  rwa [Eval.insisting, if_pos passed]

variable {natives natives' : NativeRunner}

/-- **A vigilant walker does the same as any other.** -/
theorem vigilantWalker_match (lost : Stop) (hn : NativeRunner.Match (.transparent e) natives natives')
    (fuel : Nat) : Walker.Match e (vigilantWalker lost e.since natives fuel) (walker natives' fuel) := by
  induction fuel with
  | zero => exact walker_match hn 0
  | succ fuel ih =>
    refine ⟨fun {w s t p p' f} hm hp hf => ?_, ih.apply hn, rfl⟩
    have passed := hm.heap.vouchesForAll (hf.imp fun _ hn => hn.1)
    exact .insisting lost (fun s => f.handles.all (s.heap.vouchesFor e.since)) passed (ih.step hm hp hf)

namespace Machine

/-- The constants of the running code are there. -/
theorem Match.hasConstants {m m' : Machine} (h : m.Match w m') (hm : s.Match (.transparent e) w t) :
    m.top.code.constants.all s.heap.has = true := by
  refine Array.all_eq_true_iff_forall_mem.2 fun v hv => ?_
  obtain ⟨v', -, hvv⟩ := exists_of_forall₂ h.top.code.constants (Array.mem_toList_iff.2 hv)
  exact hm.heap.has hvv

/-- **A vigilant machine does the same as any other.** -/
theorem vigilantRun_match (lost : Stop) {back back' : Caller}
    (hn : NativeRunner.Match (.transparent e) natives natives')
    (hb : Caller.Match (.transparent e) back back') (fuel : Nat) :
    RunsAlike e (vigilantRun lost natives back fuel) (run natives' back' fuel) := by
  induction fuel with
  | zero => exact run_match hn hb 0
  | succ fuel ih =>
    intro w s t m m' hm h
    exact .insisting lost (fun s => m.top.code.constants.all s.heap.has) (h.hasConstants hm)
       (ih.turn hn hb hm h)

theorem vigilantCaller_match (lost : Stop) (hn : NativeRunner.Match (.transparent e) natives natives')
    (fuel : Nat) :
    Caller.Agree (.transparent e) (vigilantCaller lost natives fuel) (caller natives' fuel) := by
  induction fuel with
  | zero => exact caller_match hn 0
  | succ fuel ih =>
    have back : Caller.Match (.transparent e) (vigilantCaller lost natives fuel) (caller natives' fuel) :=
      Caller.Agree.quiet ih
    intro w s t callee callee' args args' hm hcallee ha
    exact (vigilantRun_match lost hn back fuel).callBack hn back hm hcallee ha

end Machine

/-- What is compared from a session on. -/
theorem Session.Match.sinceNow (hm : s.Match (.transparent e) w t) :
    s.Match (.transparent { e with since := s.heap }) w t :=
  hm.terms id hm.heap.oldest (.refl _)

/-- What agrees from a session on agrees. -/
theorem Agree.sinceNow {K : Node → Prop} {α β : Type} {R : Related α β} {r r'}
    (hm : s.Match (.transparent e) w t)
    (h : Agree (.transparent { e with since := s.heap }) K w s R r r') :
    Agree (.transparent e) K w s R r r' :=
  h.terms id id le_rfl hm.heap.since

/-- **Vigilance makes no difference.** -/
theorem Evaluator.vigilant_match (lost : Stop)
    (hn : ∀ since, NativeRunner.Match (.transparent { e with since }) natives natives') (backend : Backend)
    (fuel : Nat) :
    Means.Match e (vigilant lost ⟨backend, natives, fuel⟩) (means ⟨backend, natives', fuel⟩) := by
  cases backend with
  | treeWalk =>
    refine ⟨fun {w s t f f' args args'} hm hf ha => .sinceNow hm ?_, fun {w s t f} hm hf => .sinceNow hm ?_, rfl⟩
    · exact (vigilantWalker_match lost (hn s.heap) fuel).callback hm.sinceNow hf ha
    · have hp : WalkPlace.Match w ⟨.unknown, Scopes.root, []⟩ ⟨.unknown, Scopes.root, []⟩ :=
        ⟨rfl, rfl, hm.root, .inl rfl, fun _ => rfl⟩
      refine ((vigilantWalker_match lost (hn s.heap) fuel).value hm.sinceNow hp ?_).weaken nofun
      exact hf.imp fun _ hn => hn.weaken nofun
  | machine =>
    have natives : NativeRunner.Match (.transparent e) natives natives' := hn e.since
    have back : Caller.Agree (.transparent e) (Machine.vigilantCaller lost _ fuel)
        (Machine.caller _ fuel) := Machine.vigilantCaller_match lost natives fuel
    refine ⟨back, fun {w s t f} hm hf => ?_, rfl⟩
    have mentions : f.Mentions w.handle := hf.imp fun _ hn => hn.1
    refine .insisting lost (fun s => f.handles.all (s.heap.vouchesFor s.heap))
      (hm.sinceNow.heap.vouchesForAll mentions) ?_
    exact (Machine.vigilantRun_match lost natives (Caller.Agree.quiet back) fuel).programBy hm mentions

end TwinLisp
