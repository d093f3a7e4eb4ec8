import TwinLisp.Proofs.Bytecode.Compile
import TwinLisp.Proofs.Machine.Step

/-!
# Running the machine obeys

A machine that starts a frame leaves no call behind, however it ends. While it runs, each of its instructions
finds what it refers to. If heights are exact, it leaves the operands of the machines that wait as they were.

## Main definitions

* `Machine.Steps`: the sessions and machines that a run passes through.

## Main statements

* `Machine.Running.steps`: a running machine stays one.
* `Machine.Running.run`: a run of a machine restores the depth of calls.
* `Obeys.machineCaller` and `Obeys.machineProgram`: calls and programs obey.
-/

namespace TwinLisp

variable {P : Policy} {exact : Prop} {base : Nat} {under : Array Value} {s t : Session} {ls : List Level}
variable {L : Level} {m : Machine} {natives : NativeRunner} {back : Caller}

/-! ### Handling failures -/

/-- Operands are handed back. If heights are exact, they are what the session has already. -/
theorem Session.Drifts.setOperands (hP : P.Runs exact) {operands : Array Value} (s : Session)
    (same : exact → operands = s.operands) : s.Drifts P { s with operands } where
  evolves := .single (.lend operands)
  inhibited := rfl
  nesting := rfl
  attribution := rfl
  floor := rfl
  operands hr := same (hP.restores.1 hr)

/-- A machine that has failed has all operands that it started with. -/
theorem Machine.Failing.left {shapes : List HandlerShape} {n : Nat} (hm : m.Failing P exact base under s ls shapes n)
    (e : exact) : (m.shrink m.floor).operands = under := by
  obtain ⟨others, eq⟩ := hm.started e
  rw [← Array.toList_inj]
  show (m.operands.shrink m.floor).toList = _
  rw [hm.floor, Array.toList_shrink, ← eq, ← Array.length_toList, List.take_left]

/-- A failure that no handler takes leaves all calls of the machine. -/
theorem Machine.Failing.quit (hP : P.Runs exact) {shapes : List HandlerShape} {n : Nat} {f : Fault}
    {T : Machine → Session → Prop} (hm : m.Failing P exact base under s ls shapes n) (hs : s.Sound P)
    (ho : exact → s.operands = under) (hf : P.mayFail f.cause) :
    Lands P s T (fun f t => t.callDepth = base ∧ P.mayFail f.cause) (m.quit f s) := by
  obtain ⟨_, _, _, outer, waiting, _, _, _, _, nested⟩ := hm.around.split
  refine Lands.bind hs (S := fun f' t => t.callDepth = base ∧ f'.cause = f.cause) ?_ fun f' t drifts _ h => ?_
  · refine Lands.leaveFrame f nested fun t f' _ ht cause => (waiting.leaveFrames ht f').imp fun _ _ h => ?_
    exact ⟨h.1, h.2.trans cause⟩
  · refine ⟨.setOperands hP t fun e => ?_, h.1, h.2 ▸ hf⟩
    rw [hm.left e, drifts.operands (hP.restores.2 e), ho e]

/-- **A failure is handed to a handler, whose frame goes on, or leaves the machine and all its calls.** A
failure to make the caught value goes on to the handlers around. -/
theorem Machine.Failing.unwindTo (hP : P.Runs exact) {handlers : List Handler} {shapes : List HandlerShape}
    {n : Nat} {f : Fault}
    (hs : s.Sound P) (hm : m.Failing P exact base under s ls shapes n) (ho : exact → s.operands = under)
    (hh : m.handlers = handlers) (hf : P.mayFail f.cause) :
    Lands P s (fun m' t => ∃ ls L, m'.Running P exact base under t ls L)
      (fun f t => t.callDepth = base ∧ P.mayFail f.cause) (Machine.unwindTo handlers m f s) := by
  induction handlers generalizing s m ls shapes n f with
  | nil => exact hm.quit hP hs ho hf
  | cons h handlers ih =>
    unfold Machine.unwindTo
    split
    · exact hm.quit hP hs ho hf
    · obtain ⟨ls', shape, rest, cause, kind, level, stacked, nested, around, causes⟩ := hm.atHandler hh f
      have floor : (m.atHandler h f).1.floor = under.size := hm.floor
      generalize m.atHandler h f = reached at *
      obtain ⟨m', f'⟩ := reached
      have hf' : P.mayFail f'.cause := cause ▸ hf
      have set : Eval.setCallDepth h.callDepth s = .ok () { s with callDepth := h.callDepth } := rfl
      have drift : s.Drifts P { s with callDepth := h.callDepth } := (Session.Drifts.refl s).setCallDepth _
      have sound := hs.evolves drift.evolves
      dsimp only
      rw [Eval.bind_eq_of_ok set]
      refine Lands.after drift ?_
      have ho : exact → { s with callDepth := h.callDepth }.operands = under := ho
      generalize hu : { s with callDepth := h.callDepth } = u at sound ho
      have depth : h.callDepth = u.callDepth := by rw [← hu]
      rw [depth] at around
      cases hk : h.kind with
      | cleanup =>
        have resume : shape.resume rest = ⟨shape.height, rest, shape.held + 1, false⟩ := by
          rw [HandlerShape.resume, ← kind, hk]
        rw [resume] at level
        obtain ⟨_, _, _, _, waiting, runs, installed, handlers_eq, total, nested⟩ := around.split
        have held : (f' :: m'.held).length = _ + (shape.held + 1) := congrArg Nat.succ total
        have around := Around.join waiting runs installed handlers_eq held nested
        exact .ok (.refl u)
          ⟨ls', _, around, level, floor, stacked, nofun, List.forall_mem_cons.2 ⟨hf', causes⟩⟩
      | catching =>
        have resume : shape.resume rest = ⟨shape.height + 1, rest, shape.held, false⟩ := by
          rw [HandlerShape.resume, ← kind, hk]
        rw [resume] at level
        refine Lands.bind sound (.attempt (Obeys.caught f') sound
          (S := fun r t => t.callDepth = u.callDepth ∧ Permitted P ⊤ r) fun _ _ ht h => ⟨ht.callDepth, h⟩)
          fun r t drifts sound h => ?_
        obtain ⟨ht, permitted⟩ := h
        rw [← ht] at around
        cases permitted with
        | @ok v _ =>
          refine .ok (.refl t) ⟨ls', _, ?_, level, floor, fun e => (stacked e).push v, nofun, causes⟩
          exact around.move rfl rfl rfl rfl
        | error hf =>
          refine ih sound ⟨around, ⟨_, nested, fun e => Nat.le_of_eq (stacked e).size.symm⟩, floor,
            fun e => (stacked e).started, causes⟩ (fun e => ?_) rfl hf
          rw [drifts.operands (hP.restores.2 e), ho e]

/-! ### Runs -/

/-- A machine that goes on after a step, perhaps at a handler. -/
inductive Machine.Steps (natives : NativeRunner) (back : Caller) (s : Session) (m : Machine) :
    Session → Machine → Prop where
  | refl : Steps natives back s m s m
  | step {t u : Session} {m' m'' : Machine} (before : Steps natives back s m t m')
    (now : m'.step natives back t = .ok (.running m'') u) : Steps natives back s m u m''
  | handled {t u v : Session} {m' failed m'' : Machine} {f : Fault}
    (before : Steps natives back s m t m') (now : m'.step natives back t = .ok (.failed failed f) u)
    (unwound : failed.unwind f u = .ok m'' v) : Steps natives back s m v m''

namespace Machine.Running

variable (hP : P.Runs exact) (hn : natives.Obedient P) (hb : back.Obedient P)
include hP hn hb

/-- **A running machine stays one**, and changes its session in permitted ways only. -/
theorem steps (hs : s.Sound P) (hm : m.Running P exact base under s ls L) (ho : exact → s.operands = under)
    {m' : Machine} (h : m.Steps natives back s t m') :
    s.Drifts P t ∧ ∃ ls' L', m'.Running P exact base under t ls' L' := by
  induction h with
  | refl => exact ⟨.refl s, ls, L, hm⟩
  | step _ now ih =>
    obtain ⟨drifts, ls', L', hm'⟩ := ih
    have next := hm'.step hP (hs.evolves drifts.evolves) hn hb
    rw [now] at next
    exact ⟨drifts.trans next.1, next.2⟩
  | handled _ now unwound ih =>
    obtain ⟨drifts, ls', L', hm'⟩ := ih
    have next := hm'.step hP (hs.evolves drifts.evolves) hn hb
    rw [now] at next
    have drifts := drifts.trans next.1
    obtain ⟨⟨_, _, _, failing⟩, hf⟩ := next.2
    have reached := failing.unwindTo hP (hs.evolves drifts.evolves)
      (fun e => (drifts.operands (hP.restores.2 e)).trans (ho e)) rfl hf
    unfold Machine.unwind at unwound
    rw [unwound] at reached
    exact ⟨drifts.trans reached.1, reached.2⟩

/-- **A machine that has finished is empty**: no frame waits, no handler is installed and no failure is held.
The calls that it counted have been left. If heights are exact, it has the operands that it started with. -/
theorem finished (hs : s.Sound P) (hm : m.Running P exact base under s ls L) (ho : exact → s.operands = under)
    {m' m'' : Machine} (h : m.Steps natives back s t m') {v : Value} {u : Session}
    (hv : m'.step natives back t = .ok (.finished m'' v) u) :
    m'.callers = [] ∧ m'.handlers = [] ∧ m'.held = [] ∧ u.callDepth = base ∧ (exact → m''.operands = under) := by
  obtain ⟨drifts, _, _, running⟩ := hm.steps hP hn hb hs ho h
  have last := running.step hP (hs.evolves drifts.evolves) hn hb
  rw [hv] at last
  exact last.2

/-- **A failure that leaves the machine has left its calls too.** -/
theorem failed (hs : s.Sound P) (hm : m.Running P exact base under s ls L) (ho : exact → s.operands = under)
    {m' m'' : Machine} (h : m.Steps natives back s t m') {f g : Fault} {u v : Session}
    (hf : m'.step natives back t = .ok (.failed m'' f) u)
    (hg : m''.unwind f u = .error (.fault g) v) : v.callDepth = base := by
  obtain ⟨drifts, _, _, running⟩ := hm.steps hP hn hb hs ho h
  have last := running.step hP (hs.evolves drifts.evolves) hn hb
  rw [hf] at last
  obtain ⟨⟨_, _, _, failing⟩, hf⟩ := last.2
  have drifts := drifts.trans last.1
  have left := failing.unwindTo hP (hs.evolves drifts.evolves)
    (fun e => (drifts.operands (hP.restores.2 e)).trans (ho e)) rfl hf
  unfold Machine.unwind at hg
  rw [hg] at left
  exact left.2.1

/-- **A run of a machine leaves no call behind**, however it ends. -/
theorem run (hs : s.Sound P) (hm : m.Running P exact base under s ls L) (ho : exact → s.operands = under)
    (fuel : Nat) :
    Lands P s (fun _ t => t.callDepth = base) (fun f t => t.callDepth = base ∧ P.mayFail f.cause)
      (Machine.run natives back fuel m s) := by
  induction fuel generalizing s m ls L with
  | zero => exact Session.Strays.refl s
  | succ fuel ih =>
    unfold Machine.run
    refine Lands.bind hs (hm.step hP hs hn hb).never fun p t drifts sound h => ?_
    have ho (e : exact) : t.operands = under := (drifts.operands (hP.restores.2 e)).trans (ho e)
    cases p with
    | running m' =>
      obtain ⟨_, _, hm'⟩ := h
      exact ih sound hm' ho
    | finished m' v =>
      obtain ⟨_, _, _, depth, left⟩ := h
      exact ⟨.setOperands hP t fun e => (left e).trans (ho e).symm, depth⟩
    | failed m' f =>
      obtain ⟨⟨_, _, _, failing⟩, hf⟩ := h
      refine Lands.bind sound (failing.unwindTo hP sound ho rfl hf) fun m'' u drifts sound h => ?_
      obtain ⟨_, _, hm''⟩ := h
      exact ih sound hm'' fun e => (drifts.operands (hP.restores.2 e)).trans (ho e)

end Machine.Running

/-! ### Calls and programs -/

/-- A machine that starts a frame runs. -/
theorem Machine.running_start {frame : Frame} {slots : Array Value} (starts : frame.Starts P exact slots)
    (bottom : frame.bottom = under.size) (hs : s.callDepth = base + frame.counts) :
    ∃ ls L, (Machine.start under frame slots).Running P exact base under s ls L := by
  obtain ⟨ls, runs, start, height⟩ := starts
  have around : Around P.guarded exact base under ls [] 0 frame [] [] 0 s.callDepth :=
    .join (k := []) (.nil fun _ => bottom) runs .nil rfl rfl hs
  refine ⟨ls, _, around, start, rfl, fun _ => ?_, nofun, List.forall_mem_nil _⟩
  show Stacked under frame.bottom frame.code.entry.height (under ++ slots)
  rw [← height, bottom]
  exact .start under slots

/-- A machine that starts a program on top of the operands of the machines that wait. -/
def Machine.ofProgram (operands : Array Value) (q : Prototype) (code : ArityCode Prototype) : Machine :=
  .start operands (.ofProgram q code operands.size) #[.nil]

/-- The code of a program takes no arguments. -/
theorem Prototype.IsProgram.select {q : Prototype} (h : q.IsProgram) :
    ∃ c, q.selectArity? 0 = some c ∧ c ∈ q.arities ∧ c.entry.height = 1 := by
  obtain ⟨c, arities, params, rest⟩ := h.arities
  refine ⟨c, ?_, by simp [arities], by simp [ArityCode.entry, params, rest]⟩
  simp [Prototype.selectArity?, Prototype.overloads, arities, params, rest, Overload.select?,
    List.findIdx?_cons]

/-- The frame of a program starts well-formed code. -/
theorem Frame.starts_ofProgram {q : Prototype} (typed : q.Each (ArityCode.Typed P.guarded))
    (program : q.IsProgram) (uncut : exact → q.Each ArityCode.Uncut) :
    ∃ c, q.selectArity? 0 = some c ∧ ∀ bottom, (Frame.ofProgram q c bottom).Starts P exact #[.nil] := by
  obtain ⟨c, selected, mem, height⟩ := program.select
  obtain ⟨ls, typedBy⟩ := typed.code c mem
  rw [program.captures] at typedBy
  refine ⟨c, selected, fun bottom => ⟨ls, ⟨typedBy, typed.inner c mem, fun e =>
    ⟨?_, (uncut e).inner c mem⟩⟩, typedBy.entry, height.symm⟩⟩
  have := (uncut e).code c mem
  rwa [program.captures] at this

namespace Obeys

variable (hP : P.Runs exact) (hn : natives.Obedient P)
include hP hn

/-- A frame that starts well-formed code is run and leaves its call. -/
theorem runFrame (hb : back.Obedient P) (fuel : Nat) {make : Nat → Eval (Frame × Array Value)}
    (made : ∀ s : Session, s.Sound P → ∀ bottom, Lands P s
      (fun r t => r.1.Starts P exact r.2 ∧ r.1.bottom = bottom ∧ t.callDepth = s.callDepth + r.1.counts)
      (fun f t => t.callDepth = s.callDepth ∧ P.mayFail f.cause) (make bottom s)) :
    Obeys P (Machine.runFrame natives back fuel make) ⊤ := by
  intro s hs
  unfold Machine.runFrame
  rw [Eval.get_bind]
  refine Lands.ends rfl (Lands.bind hs (made s hs s.operands.size) fun r t drifts sound h => ?_)
  obtain ⟨starts, bottom, depth⟩ := h
  obtain ⟨_, _, running⟩ := Machine.running_start starts bottom depth
  have ho (e : exact) := drifts.operands (hP.restores.2 e)
  exact (running.run hP hn hb sound ho fuel).imp fun _ _ h => ⟨h, trivial⟩

theorem callValue (hb : back.Obedient P) (fuel : Nat) (callee : Value) (args : List Value)
    (site : Location) : Obeys P (Machine.callValue natives back fuel callee args site) ⊤ := by
  unfold Machine.callValue
  refine (Obeys.callee hP callee site).bind fun c hc => ?_
  cases c with
  | compiled q captured =>
    obtain ⟨typed, captures, uncut⟩ := hc q captured rfl
    refine runFrame hP hn hb fuel fun s hs bottom => ?_
    refine (Lands.enter hs callee typed captures uncut args bottom site).imp fun r t h => ?_
    obtain ⟨starts, counted, at_bottom, depth⟩ := h
    exact ⟨starts, at_bottom, by rw [depth, Frame.counts, if_pos counted]⟩
  | native n => exact .attributed (hn hb n args) _ _
  | data => exact .attributed (.callData _ _) _ _

/-- **Calls of the machine obey**, and so do calls from native functions. -/
theorem machineCaller (fuel : Nat) : (Machine.caller natives fuel).Obedient P := by
  induction fuel with
  | zero => exact fun _ _ => .outOfFuel
  | succ fuel ih =>
    intro callee args
    exact Obeys.callSite.andThen fun site => callValue hP hn ih fuel callee args site

/-- Programs that were compiled to well-formed code obey. -/
theorem compiled {q : Prototype} (typed : q.Each (ArityCode.Typed P.guarded)) (program : q.IsProgram)
    (uncut : exact → q.Each ArityCode.Uncut) (fuel : Nat) :
    Obeys P (match q.selectArity? 0 with
      | some code => Machine.runFrame natives (Machine.caller natives fuel) fuel fun bottom =>
        return (.ofProgram q code bottom, #[.nil])
      | none => Eval.defect .noFrame) ⊤ := by
  obtain ⟨c, selected, starts⟩ := Frame.starts_ofProgram typed program uncut
  rw [selected]
  exact runFrame hP hn (machineCaller hP hn fuel) fuel fun s _ bottom => .ok (.refl s) ⟨starts bottom, rfl, rfl⟩

end Obeys

/-- **Programs of checked forms obey** where heights need not be exact. -/
theorem Obeys.machineProgram (hP : P.Runs False) (hl : ∀ limit, P.mayFail (.codeTooLarge limit))
    (hn : natives.Obedient P) (fuel : Nat) {f : Form} (hf : f.Accepted none false) :
    Obeys P (Machine.program natives fuel f) ⊤ :=
  (Obeys.compileProgram hl hf).bind fun _ h => compiled hP hn h.1 h.2 False.elim fuel

end TwinLisp
