import TwinLisp.Engine.Prelude
import TwinLisp.Proofs.Heap.Exactness
import TwinLisp.Proofs.Machine.Unwinding
import TwinLisp.Proofs.Number.Blame
import TwinLisp.TreeWalk.Eval

/-!
# Blame in both evaluators

A call of a core operator fails in the same way in both evaluators, whether compiled code calls the built-in
function or applies the operator itself: the failure is the one of the first argument that cannot be taken in,
blamed on the form of that argument. What fails while an argument is evaluated goes on unchanged.

## Main definitions

* `Machine.Concludes`: a machine has come to the end of some code.
* `Instruction.Applies`: an instruction is about to apply a core operator to some values.

## Main statements

* `Compiler.step_plain`: a call is compiled as one, or as an operator that is applied in line.
* `Compiler.step_ends`: the code of a call ends in an instruction that knows where the arguments stand.
* `CoreOp.blames_argument`: both evaluators blame the first argument that cannot be taken in.
-/

namespace TwinLisp

/-! ### The code of a call -/

theorem Assemble.of_index_eq_ok {limit : CodeLimit} {n i : Nat} {a b : Assembly} {s t : Session}
    (h : Assemble.index limit n a s = .ok (i, b) t) : i = n ∧ b = a ∧ t = s := by
  unfold index at h
  split at h <;> cases h
  exact ⟨rfl, rfl, rfl⟩

/-- A call site that was added is there. -/
theorem Assemble.site_of_addSite {ls : List Location} {i : Nat} {a b : Assembly} {s t : Session}
    (h : Assemble.addSite ls a s = .ok (i, b) t) : b.tables.sites[i]? = some ls := by
  unfold addSite at h
  obtain ⟨_, _, _, read, more⟩ := of_bind_eq_ok h
  cases read
  obtain ⟨_, _, _, counted, rest⟩ := of_bind_eq_ok more
  obtain ⟨rfl, rfl, rfl⟩ := of_index_eq_ok counted
  cases rest
  simp

namespace Compiler

variable {c : Compiler} {p : CompilePlace} {head : Form} {args : List Form} {code : Code} {a b : Assembly}
variable {s t : Session}

/-- The core operator that the code of a call applies in line, if it does. -/
def operator? (p : CompilePlace) (head : Form) (args : List Form) : Assemble (Option CoreOp) :=
  match head.symbolName? with
  | some name => inline? p name args
  | none => return none

/-- A form that is no special form is a call. -/
theorem step_plain (l : Location) (plain : head.symbolName?.bind SpecialForm.ofName? = none) :
    c.step p (.group .list (head :: args) l) = operator? (p.within l) head args >>= fun op =>
      op.elim (c.call (p.within l) head args) fun op => c.inlined (p.within l) op args := by
  unfold step operator?
  cases named : head.symbolName? with
  | none => simp only [named, pure_bind, Option.elim]
  | some name =>
    rw [named] at plain
    simp only [named, show SpecialForm.ofName? name = none from plain]
    refine bind_congr fun op => ?_
    cases op <;> rfl

theorem call_parts (h : c.call p head args a s = .ok (code, b) t) : ∃ front site a' s',
    code = front ++ [(.call args.length site, p.cursor)] ∧ b.tables.sites[site]? = some (p.site args) ∧
      c.values p (head :: args) a s = .ok (front, a') s' := by
  unfold call at h
  obtain ⟨front, a', s', values, more⟩ := Assemble.of_bind_eq_ok h
  obtain ⟨site, _, _, added, rest⟩ := Assemble.of_bind_eq_ok more
  obtain ⟨argc, _, _, counted, last⟩ := Assemble.of_bind_eq_ok rest
  obtain ⟨rfl, rfl, rfl⟩ := Assemble.of_index_eq_ok counted
  cases last
  exact ⟨front, site, a', s', rfl, Assemble.site_of_addSite added, values⟩

theorem inlined_parts {op : CoreOp} (h : c.inlined p op args a s = .ok (code, b) t) : ∃ front site a' s',
    code = front ++ [(op.instruction site, p.cursor)] ∧ b.tables.sites[site]? = some (p.site args) ∧
      c.values p args a s = .ok (front, a') s' := by
  unfold inlined at h
  obtain ⟨front, a', s', values, more⟩ := Assemble.of_bind_eq_ok h
  obtain ⟨site, _, _, added, last⟩ := Assemble.of_bind_eq_ok more
  cases last
  exact ⟨front, site, a', s', rfl, Assemble.site_of_addSite added, values⟩

/-- Some code ends in an instruction that applies what it is given to the values of the arguments, with a call
site that says where the call and the arguments stand. -/
def EndsInCall (p : CompilePlace) (args : List Form) (code : Code) (a : Assembly) : Prop :=
  ∃ front i site, code = front ++ [(i, p.cursor)] ∧ a.tables.sites[site]? = some (p.site args) ∧
    (i = .call args.length site ∨ args.length = 2 ∧ ∃ op : CoreOp, i = op.instruction site)

theorem call_ends (h : c.call p head args a s = .ok (code, b) t) : EndsInCall p args code b := by
  obtain ⟨front, site, -, -, rfl, found, -⟩ := call_parts h
  exact ⟨front, _, site, rfl, found, .inl rfl⟩

theorem inlined_ends {op : CoreOp} (two : args.length = 2) (h : c.inlined p op args a s = .ok (code, b) t) :
    EndsInCall p args code b := by
  obtain ⟨front, site, -, -, rfl, found, -⟩ := inlined_parts h
  exact ⟨front, _, site, rfl, found, .inr ⟨two, op, rfl⟩⟩

theorem two_of_operator {op : CoreOp} (h : operator? p head args a s = .ok (some op, b) t) : args.length = 2 := by
  unfold operator? at h
  cases named : head.symbolName? with
  | none =>
    rw [named] at h
    cases h
  | some name =>
    rw [named] at h
    change inline? p name args a s = _ at h
    unfold inline? at h
    match CoreOp.ofName? name, args, h with
    | some _, [_, _], _ => rfl
    | none, _, h => cases h
    | some _, [], h => cases h
    | some _, [_], h => cases h
    | some _, _ :: _ :: _ :: _, h => cases h

/-- The call site of a call says where the call stands and where its arguments do. -/
theorem site_within (p : CompilePlace) {l : Location} (known : l.isKnown = true)
    (placed : ∀ a ∈ args, a.location.isKnown = true) : (p.within l).site args = l :: args.map Form.location := by
  have cursor : (p.within l).cursor = l := Location.orElse_of_isKnown known _
  rw [CompilePlace.site, cursor]
  exact congrArg (l :: ·) (List.map_congr_left fun a ha => Location.orElse_of_isKnown (placed a ha) _)

/-- **The code of a call ends in an instruction that knows where the arguments stand.** -/
theorem step_ends {l : Location} (plain : head.symbolName?.bind SpecialForm.ofName? = none)
    (h : c.step p (.group .list (head :: args) l) a s = .ok (code, b) t) :
    EndsInCall (p.within l) args code b := by
  rw [step_plain l plain] at h
  obtain ⟨inlined, _, _, chosen, built⟩ := Assemble.of_bind_eq_ok h
  cases inlined with
  | some op => exact inlined_ends (two_of_operator chosen) built
  | none => exact call_ends built

end Compiler

/-! ### The instruction at the end -/

/-- The instruction is about to apply a core operator to the values `vs`, which lie on the operands: it calls the
built-in function beneath them, or applies the operator itself. -/
def Instruction.Applies (s : Session) (op : CoreOp) (vs : List Value) (operands : Array Value) :
    Instruction → Prop
  | .call _ _ => ∃ below a f, operands = below ++ (.ref .function a :: vs).toArray ∧
    s.heap.get? a = some (.function f) ∧ f.body = .native (.builtin op.builtin)
  | i => ∃ below site, i = op.instruction site ∧ operands = below ++ vs.toArray

namespace Machine

variable {m : Machine} {s : Session} {op : CoreOp} {vs : List Value} {l : Location} {ls : List Location}

/-- The machine has come to the last instruction of some code that was compiled for a place. The code stands there
in the running frame, which has the call sites that were assembled by then. -/
structure Concludes (m : Machine) (p : CompilePlace) (code : Code) (a : Assembly) : Prop where
  ip : m.top.ip + 1 = p.offset + code.length
  code {k : Nat} {e : Instruction × Location} : code[k]? = some e →
    m.top.code.code[p.offset + k]? = some e.1
  sites {k : Nat} {ls : List Location} : a.tables.sites[k]? = some ls → m.top.code.sites[k]? = some ls

/-- What a step comes to that has an answer for its result. -/
def settled (m : Machine) : Except Fault Value → Progress
  | .ok v => .running (m.push v)
  | .error f => .failed m f

theorem attempt_eq {x : Eval Value} {answer : Except Fault Value} (h : x s = Eval.ofExcept answer s) :
    Eval.attempt x s = .ok answer s := by
  unfold Eval.attempt
  rw [h]
  cases answer <;> rfl

theorem pushing_eq {x : Eval Value} {answer : Except Fault Value} (h : x s = Eval.ofExcept answer s) :
    m.pushing x s = .ok (m.settled answer) s := by
  unfold pushing trying
  rw [Eval.bind_eq_of_ok (attempt_eq h)]
  cases answer <;> rfl

theorem lending_eq {x : Eval Value} {answer : Except Fault Value} (h : ∀ s, x s = Eval.ofExcept answer s) :
    m.lending x s = .ok (m.settled answer) s :=
  (lending_eq_pushing ⟨answer, fun _ => attempt_eq (h _)⟩).trans (pushing_eq (h s))

/-- A native function is called with what lies above it. -/
theorem call_native (natives : NativeRunner) (back : Caller) {site : Nat}
    (found : m.site? site = some ls) {below : Array Value} {a : Address} {f : Function} {n : Native}
    (holds : m.operands = below ++ (.ref .function a :: vs).toArray)
    (hf : s.heap.get? a = some (.function f)) (body : f.body = .native n) :
    m.call natives back vs.length site s =
      (m.withOperands below).lending (Eval.attributed (ls.head?.getD .unknown) (ls.drop 1) (natives back n vs)) s := by
  have topmost := topmost?_append m below (.ref .function a :: vs).toArray
  have dropped := drop_append m below (.ref .function a :: vs).toArray
  rw [← holds, List.size_toArray, List.length_cons] at topmost dropped
  have callee : Eval.attempt (Callee.of (.ref .function a) (ls.head?.getD .unknown)) s =
      .ok (.ok (.native n)) s := by
    unfold Eval.attempt
    rw [callee_native hf body]
  unfold Machine.call
  rw [found]
  dsimp only
  rw [show m.topmost? (vs.length + 1) = _ from topmost]
  dsimp only
  rw [Eval.bind_eq_of_ok callee]
  dsimp only
  rw [show m.drop (vs.length + 1) = _ from dropped]

/-- A core operator is applied to two values as its built-in function is. -/
theorem binary_core (hosts : HostTable) (back : Caller) {site : Nat} (found : m.site? site = some (l :: ls))
    {below : Array Value} (holds : m.operands = below ++ vs.toArray) (two : vs.length = 2) :
    m.binary site op.apply s = (m.withOperands below).pushing
      (Eval.attributed l ls (Eval.runNative hosts back (.builtin op.builtin) vs)) s := by
  match vs, two with
  | [x, y], _ =>
    have second := pop?_push m (below.push x) y
    have pushed : below ++ #[x, y] = (below.push x).push y := by
      rw [← Array.toList_inj]
      simp
    rw [← pushed, ← holds] at second
    unfold Machine.binary
    rw [show m.pop? = _ from second]
    dsimp only
    rw [pop?_push]
    dsimp only
    rw [show (m.withOperands below).site? site = _ from found, Eval.runNative_core]
    rfl

/-- What lies on the operands survives a collection before a call. -/
theorem get?_maybeCollect {a : Address} {o : Object} {kind : Kind} (held : .ref kind a ∈ m.operands)
    (hs : s.heap.get? a = some o) :
    ∃ t, Eval.maybeCollect (fun _ => m.roots) s = .ok () t ∧ t.heap.get? a = some o := by
  have collect : Eval.maybeCollect (fun _ => m.roots) s = ((if s.wantsCollection = true then
    set (s.collectGarbage m.roots).1 else pure PUnit.unit : Eval PUnit) s) := rfl
  have root : .object a ∈ m.roots := by
    refine List.mem_append_left _ (List.mem_append_left _ (List.mem_append_left _ ?_))
    exact Node.mem_ofValues_iff.2 ⟨kind, a, Array.mem_toList_iff.2 held, rfl⟩
  rw [collect]
  split
  · exact ⟨_, rfl, (Heap.get?_collect ..).2 ⟨hs, .root (List.mem_append_right _ root)⟩⟩
  · exact ⟨s, rfl, hs⟩

/-- A call of the built-in function of a core operator answers as the function does. -/
theorem step_called (hosts : HostTable) (back : Caller) {site : Nat} {answer : Except Fault Value}
    (fetched : m.top.code.code[m.top.ip]? = some (.call vs.length site)) (found : m.site? site = some (l :: ls))
    {below : Array Value} {a : Address} {f : Function} (holds : m.operands = below ++ (.ref .function a :: vs).toArray)
    (hf : s.heap.get? a = some (.function f)) (body : f.body = .native (.builtin op.builtin))
    (ran : ∀ s, Eval.attributed l ls (Eval.runNative hosts back (.builtin op.builtin) vs) s =
      Eval.ofExcept answer s) :
    ∃ t, m.step (Eval.runNative hosts) back s =
      .ok (((m.goto (m.top.ip + 1)).withOperands below).settled answer) t := by
  have held : .ref .function a ∈ (m.goto (m.top.ip + 1)).operands := by
    rw [show (m.goto (m.top.ip + 1)).operands = _ from holds]
    simp
  obtain ⟨t, collected, hf⟩ := get?_maybeCollect held hf
  have called : (m.goto (m.top.ip + 1)).execute (Eval.runNative hosts) back (.call vs.length site) s =
      (m.goto (m.top.ip + 1)).call (Eval.runNative hosts) back vs.length site t :=
    Eval.bind_eq_of_ok collected
  refine ⟨t, ?_⟩
  unfold step
  rw [fetched]
  dsimp only
  rw [called, call_native (m := m.goto (m.top.ip + 1)) _ back found holds hf body]
  exact lending_eq ran

/-- A core operator that is applied in line answers as its built-in function does. -/
theorem step_inlined (hosts : HostTable) (back : Caller) {site : Nat} {answer : Except Fault Value}
    (fetched : m.top.code.code[m.top.ip]? = some (op.instruction site)) (found : m.site? site = some (l :: ls))
    {below : Array Value} (holds : m.operands = below ++ vs.toArray) (two : vs.length = 2)
    (ran : ∀ s, Eval.attributed l ls (Eval.runNative hosts back (.builtin op.builtin) vs) s =
      Eval.ofExcept answer s) :
    m.step (Eval.runNative hosts) back s =
      .ok (((m.goto (m.top.ip + 1)).withOperands below).settled answer) s := by
  unfold step
  rw [fetched]
  dsimp only
  rw [execute_core, binary_core (m := m.goto (m.top.ip + 1)) hosts back found holds two]
  exact pushing_eq (ran s)

/-- The instruction at the end of a call answers as the built-in function does. -/
theorem step_applies (hosts : HostTable) (back : Caller) {i : Instruction} {site : Nat}
    {answer : Except Fault Value} (fetched : m.top.code.code[m.top.ip]? = some i)
    (kind : i = .call vs.length site ∨ vs.length = 2 ∧ ∃ op : CoreOp, i = op.instruction site)
    (found : m.site? site = some (l :: ls)) (applies : i.Applies s op vs m.operands)
    (ran : ∀ s, Eval.attributed l ls (Eval.runNative hosts back (.builtin op.builtin) vs) s =
      Eval.ofExcept answer s) :
    ∃ below t, m.step (Eval.runNative hosts) back s =
      .ok (((m.goto (m.top.ip + 1)).withOperands below).settled answer) t := by
  rcases kind with rfl | ⟨two, other, rfl⟩
  · obtain ⟨below, a, f, holds, hf, body⟩ := applies
    exact ⟨below, step_called hosts back fetched found holds hf body ran⟩
  · obtain ⟨below, rfl, holds⟩ : ∃ below, other = op ∧ m.operands = below ++ vs.toArray := by
      cases other <;> obtain ⟨below, site', same, holds⟩ := applies <;> cases op <;> cases same <;>
        exact ⟨below, rfl, holds⟩
    exact ⟨below, s, step_inlined hosts back fetched found holds two ran⟩

end Machine

/-! ### What is blamed already -/

theorem Fault.orAt_of_isSome {f : Fault} (h : f.location.isSome = true) (l : Location) : f.orAt l = f := by
  unfold orAt
  rw [if_neg]
  simp [Option.isNone_iff_eq_none, Option.isSome_iff_ne_none.1 h]

namespace Machine

/-- Leaving frames does not change what is blamed. -/
theorem leaveFrames_of_located {f : Fault} (located : f.location.isSome = true) (frames : List Frame)
    (s : Session) : ∃ t, leaveFrames f frames s = .ok f t := by
  induction frames generalizing s with
  | nil => exact ⟨s, rfl⟩
  | cons frame frames ih =>
    unfold leaveFrames
    rw [Fault.orAt_of_isSome located]
    split
    · exact ih (Eval.leaveCall s)
    · exact ih s

/-- **A failure that is blamed on something comes to every handler as it is, and leaves the machine as it is.** -/
theorem keeps_located (m : Machine) {f : Fault} (located : f.location.isSome = true) :
    (∀ h, (m.atHandler h f).2 = f) ∧
      ∀ s, (m.handlers = [] ∨ f.isFatal = true) → ∃ t, m.unwind f s = .error (.fault f) t := by
  have leaves (s : Session) : ∃ t, m.quit f s = .error (.fault f) t := by
    obtain ⟨t, left⟩ := leaveFrames_of_located located (m.top :: m.callers) s
    exact ⟨_, Eval.bind_eq_of_ok left⟩
  refine ⟨fun h => ?_, fun s ends => ?_⟩
  · obtain ⟨l, dropped⟩ := fault_dropFrames h.callers m.top f m.callers
    exact dropped.trans (Fault.orAt_of_isSome located l)
  · unfold unwind unwindTo
    cases handlers : m.handlers with
    | nil => exact leaves s
    | cons h outer =>
      obtain fatal | fatal := ends
      · cases handlers.symm.trans fatal
      · dsimp only
        rw [if_pos fatal]
        exact leaves s

end Machine

/-! ### Calls in the tree walker -/

namespace Walker

variable {w : Walker} {p : WalkPlace} {op : CoreOp} {head : Form} {args : List Form} {vs : List Value}
variable {l : Location} {s t : Session}

/-- The parts of a call of a core operator have been evaluated: its head to the built-in function, which is there
still, and its arguments to `vs`. -/
def Prepares (w : Walker) (p : WalkPlace) (op : CoreOp) (head : Form) (args : List Form) (vs : List Value)
    (s t : Session) : Prop :=
  ∃ a f s', w.value p head s = .ok (.ref .function a) s' ∧
    w.values (p.holding [.ref .function a]) args s' = .ok vs t ∧
    t.heap.get? a = some (.function f) ∧ f.body = .native (.builtin op.builtin)

/-- The evaluation of an argument of a call has stopped with `e`. -/
def StopsInArgument (w : Walker) (p : WalkPlace) (head : Form) (args : List Form) (e : Stop)
    (s t : Session) : Prop :=
  ∃ callee s', w.value p head s = .ok callee s' ∧ w.values (p.holding [callee]) args s' = .error e t

/-- A form that is no special form is a call. -/
theorem step_plain (plain : head.symbolName?.bind SpecialForm.ofName? = none) :
    w.step p (.group .list (head :: args) l) =
      (do return .value (← w.evalCall (p.within l) head args)) := by
  unfold step
  dsimp only
  rw [plain]

/-- A call of a native function runs it where the call stands. -/
theorem apply_native (natives : NativeRunner) {r : CallRequest} {a : Address} {f : Function} {n : Native}
    (callee : r.callee = .ref .function a) (hf : s.heap.get? a = some (.function f))
    (body : f.body = .native n) :
    w.apply natives r s = Eval.attributed r.site r.locations (natives w.callback n r.args) s := by
  have function : Eval.function? (.ref .function a) s = .ok (some f) s :=
    Eval.bind_eq_of_ok (Eval.object_eq_of_get? hf)
  have callable : Eval.blaming r.site (Eval.callable (.ref .function a)) s = .ok f s := by
    unfold Eval.blaming Eval.mapFault Eval.callable
    rw [Eval.bind_eq_of_ok function]
    rfl
  unfold apply
  rw [callee]
  dsimp only
  rw [Eval.bind_eq_of_ok callable, body]

/-- Nothing is evaluated without fuel. -/
theorem value_zero (natives : NativeRunner) (p : WalkPlace) (f : Form) (s : Session) :
    (walker natives 0).value p f s = .error .outOfFuel s := rfl

/-- A call of a core operator answers as the built-in function does. -/
theorem eval_of_prepares {hosts : HostTable} {fuel : Nat} {answer : Except Fault Value}
    (known : l.isKnown = true) (placed : ∀ a ∈ args, a.location.isKnown = true)
    (plain : head.symbolName?.bind SpecialForm.ofName? = none)
    (prepared : (walker (Eval.runNative hosts) fuel).Prepares (p.within l) op head args vs s t)
    (ran : ∀ call s, Eval.attributed l (args.map Form.location)
      (Eval.runNative hosts call (.builtin op.builtin) vs) s = Eval.ofExcept answer s) :
    (walker (Eval.runNative hosts) (fuel + 1)).eval p (.group .list (head :: args) l) s =
      (do return Outcome.value (← Eval.ofExcept answer)) t := by
  obtain ⟨a, f, s', evaluated, values, hf, body⟩ := prepared
  cases fuel with
  | zero =>
    rw [value_zero] at evaluated
    cases evaluated
  | succ fuel =>
    change (walker (Eval.runNative hosts) (fuel + 1)).step p (.group .list (head :: args) l) s = _
    have site : (p.within l).cursor = l := Location.orElse_of_isKnown known _
    have locations : (args.map fun a => a.location.orElse (p.within l).cursor) = args.map Form.location :=
      List.map_congr_left fun a ha => Location.orElse_of_isKnown (placed a ha) _
    have called : (walker (Eval.runNative hosts) (fuel + 1)).evalCall (p.within l) head args s =
        Eval.ofExcept answer t := by
      unfold evalCall
      rw [Eval.bind_eq_of_ok evaluated, Eval.bind_eq_of_ok values, locations, site]
      exact (apply_native (r := ⟨_, vs, l, args.map Form.location, _⟩) _ rfl hf body).trans (ran _ t)
    rw [step_plain plain]
    cases answer with
    | ok v => exact Eval.bind_eq_of_ok called
    | error f => exact Eval.bind_eq_of_error called

/-- A call stops as the evaluation of an argument does. -/
theorem eval_of_stops {natives : NativeRunner} {fuel : Nat} {e : Stop}
    (plain : head.symbolName?.bind SpecialForm.ofName? = none)
    (stops : (walker natives fuel).StopsInArgument (p.within l) head args e s t) :
    (walker natives (fuel + 1)).eval p (.group .list (head :: args) l) s = .error e t := by
  obtain ⟨callee, s', evaluated, values⟩ := stops
  change (walker natives fuel).step p (.group .list (head :: args) l) s = _
  have called : (walker natives fuel).evalCall (p.within l) head args s = .error e t := by
    unfold evalCall
    rw [Eval.bind_eq_of_ok evaluated]
    exact Eval.bind_eq_of_error values
  rw [step_plain plain]
  exact Eval.bind_eq_of_error called

end Walker

/-- **Both evaluators blame the first argument that cannot be taken in.** A call of a core operator, of whose
arguments there are at least two, has one answer for any values of the arguments. The tree walker gives it when it
has evaluated the arguments, and so does the machine when it has come to the end of the code of the call. Where an
argument fails to have a value, the tree walker stops as its evaluation does, and a failure that is blamed on
something comes to the handlers of the machine, or leaves it, as it is. -/
theorem CoreOp.blames_argument (op : CoreOp) {head : Form} {args : List Form} {l : Location}
    (known : l.isKnown = true) (placed : ∀ a ∈ args, a.location.isKnown = true)
    (plain : head.symbolName?.bind SpecialForm.ofName? = none) (many : 2 ≤ args.length) :
    (∀ vs : List Value, vs.length = args.length →
      ∃ answer, op.Blames (.atArgument l (args.map Form.location)) none 0 vs answer ∧
        (∀ (hosts : HostTable) (fuel : Nat) (p : WalkPlace) (s t : Session),
          (walker (Eval.runNative hosts) fuel).Prepares (p.within l) op head args vs s t →
            (walker (Eval.runNative hosts) (fuel + 1)).eval p (.group .list (head :: args) l) s =
              (do return Outcome.value (← Eval.ofExcept answer)) t) ∧
        ∀ (hosts : HostTable) (back : Caller) (levels : Nat) (p : CompilePlace) (a b : Assembly) (code : Code)
          (s s' : Session) (m : Machine) (t : Session),
          Compiler.within (levels + 1) p (.group .list (head :: args) l) a s = .ok (code, b) s' →
            m.Concludes p code b →
            (∀ i, m.top.code.code[m.top.ip]? = some i → i.Applies t op vs m.operands) →
              ∃ (m' : Machine) (t' : Session),
                m.step (Eval.runNative hosts) back t = .ok (m'.settled answer) t') ∧
    (∀ (natives : NativeRunner) (fuel : Nat) (p : WalkPlace) (e : Stop) (s t : Session),
      (walker natives fuel).StopsInArgument (p.within l) head args e s t →
        (walker natives (fuel + 1)).eval p (.group .list (head :: args) l) s = .error e t) ∧
    ∀ (m : Machine) (f : Fault), f.location.isSome = true →
      (∀ h, (m.atHandler h f).2 = f) ∧
        ∀ s, (m.handlers = [] ∨ f.isFatal = true) → ∃ t, m.unwind f s = .error (.fault f) t := by
  refine ⟨fun vs evaluated => ?_, fun natives fuel p e s t => Walker.eval_of_stops plain,
    fun m f => m.keeps_located⟩
  have sites : ∀ k ∈ args.map Form.location, k.isKnown = true := List.forall_mem_map.2 placed
  have places : vs.length = (args.map Form.location).length := by simpa using evaluated
  obtain ⟨answer, blames, ran⟩ := op.blames_attributed known sites (by omega) places
  refine ⟨answer, blames, fun hosts fuel p s t prepared => ?_, ?_⟩
  · exact Walker.eval_of_prepares known placed plain prepared (ran hosts)
  · intro hosts back levels p a b code s s' m t compiled concludes applies
    obtain ⟨front, i, site, rfl, found, kind⟩ := Compiler.step_ends plain compiled
    have fetched : m.top.code.code[m.top.ip]? = some i := by
      have ip := concludes.ip
      rw [List.length_append, List.length_singleton] at ip
      rw [show m.top.ip = p.offset + front.length by omega]
      exact concludes.code (List.getElem?_concat_length ..)
    have here : m.site? site = some (l :: args.map Form.location) :=
      (concludes.sites found).trans (congrArg some (Compiler.site_within p known placed))
    obtain ⟨below, t', stepped⟩ := Machine.step_applies hosts back fetched (evaluated ▸ kind) here
      (applies i fetched) (ran hosts back)
    exact ⟨_, t', stepped⟩

/-- A division by zero: both evaluators blame the divisor. The tree walker divides literals, and the machine, which
has come to the division, divides locals. -/
theorem blames_argument_divisor :
    let quotient (left right : Leaf) : Form :=
      .group .list [.leaf (.symbol "/") ⟨1, 2⟩, .leaf left ⟨1, 4⟩, .leaf right ⟨1, 6⟩] ⟨1, 1⟩
    let fault : Fault := ⟨.divideByZero, some ⟨1, 6⟩, none⟩
    (∃ s, Eval.defineNative "/" (.builtin .div) (.fresh {}) = .ok () s ∧
      (walker (Eval.runNative #[]) 3).eval ⟨.unknown, Scopes.root, []⟩ (quotient (.int 6) (.int 0)) s =
        .error (.fault fault) s) ∧
    ∃ code b, Compiler.within 2 ⟨.unknown, 0, 3, ⟨none, [("z", 2), ("n", 1)]⟩, [], none⟩
        (quotient (.symbol "n") (.symbol "z")) ⟨.empty, [[]]⟩ (.fresh {}) = .ok (code, b) (.fresh {}) ∧
      let arity : ArityCode Prototype :=
        ⟨2, false, (code.map (·.1)).toArray, (code.map (·.2)).toArray, #[], b.tables.sites, []⟩
      let frame : Frame := ⟨.mk none none [] [arity], arity, 2, 0, #[], .unknown, true⟩
      ∃ m t, (Machine.start #[] frame #[.nil, .int 6, .int 0, .int 6, .int 0]).step (Eval.runNative #[])
        (Machine.caller (Eval.runNative #[]) 3) (.fresh {}) = .ok (.failed m fault) t := by
  intro quotient fault
  have blame (left right : Leaf) :=
    (@CoreOp.blames_argument (.arith .div) (.leaf (.symbol "/") ⟨1, 2⟩) [.leaf left ⟨1, 4⟩, .leaf right ⟨1, 6⟩]
      ⟨1, 1⟩ rfl (by simp [Form.location, Location.isKnown]) rfl (Nat.le_refl 2)).1 [.int 6, .int 0] rfl
  have fails : (CoreOp.arith .div).FailsFrom none 0 [.int 6, .int 0] 1 .divideByZero :=
    .later (r := .int 6) rfl (.here .zeroDivisor)
  constructor
  · obtain ⟨answer, blames, walks, -⟩ := blame (.int 6) (.int 0)
    cases blames.fails fails
    refine ⟨_, rfl, walks #[] 2 _ _ _ ?_⟩
    exact ⟨⟨0, 0⟩, ⟨some ⟨0⟩, false, .native (.builtin .div)⟩, _, rfl, rfl, rfl, rfl⟩
  · obtain ⟨answer, blames, -, runs⟩ := blame (.symbol "n") (.symbol "z")
    cases blames.fails fails
    have compiled : Compiler.within 2 ⟨.unknown, 0, 3, ⟨none, [("z", 2), ("n", 1)]⟩, [], none⟩
        (quotient (.symbol "n") (.symbol "z")) ⟨.empty, [[]]⟩ (.fresh {}) =
          .ok ([(.loadLocal 1, ⟨1, 4⟩), (.loadLocal 2, ⟨1, 6⟩), (.arith .div 0, ⟨1, 1⟩)],
            ⟨⟨#[], #[[⟨1, 1⟩, ⟨1, 4⟩, ⟨1, 6⟩]], #[]⟩, [[]]⟩) (.fresh {}) := rfl
    refine ⟨_, _, compiled, runs #[] _ 1 _ _ _ _ _ _ _ _ compiled ?_ fun i h => ?_⟩
    · refine ⟨rfl, fun {k e} h => ?_, fun h => h⟩
      obtain _ | _ | _ | k := k <;> cases h <;> rfl
    · cases h
      exact ⟨#[.nil, .int 6, .int 0], 0, rfl, rfl⟩

end TwinLisp
