import TwinLisp.Machine.Step

/-!
# Running the machine

A machine runs instruction by instruction until its outermost frame returns. A failure goes to the
innermost handler; on the way the frames above the handler's are dropped, and each offers the location
of its call to blame. A failure that ends the session goes past all handlers.

## Main definitions

* `Machine.unwind` finds the handler for a failure.
* `Machine.run` runs a machine for at most so many instructions.
* `Machine.program` runs a program, and `Machine.caller` calls functions.
-/

namespace TwinLisp

namespace Machine

/-- Drop frames until `n` remain beneath the running one, offering the call of each to blame. -/
def dropFrames (n : Nat) (top : Frame) (f : Fault) : List Frame → Frame × List Frame × Fault
  | [] => (top, [], f)
  | caller :: callers =>
    if callers.length < n then (top, caller :: callers, f)
    else dropFrames n caller (f.orAt top.site) callers

/-- The machine that goes on at handler `h`, and what to blame a failure on. -/
def atHandler (m : Machine) (h : Handler) (f : Fault) : Machine × Fault :=
  let (top, callers, f) := dropFrames h.callers m.top f m.callers
  -- The newest held failure is the first, so the oldest `h.held` of them stay.
  let m := { m with top, callers, held := m.held.drop (m.held.length - h.held) }
  ((m.shrink h.operands).goto h.target, f)

/-- Leave the calls of some frames, offering each to blame. -/
def leaveFrames (f : Fault) : List Frame → Eval Fault
  | [] => return f
  | frame :: frames => do
    if frame.isCounted then modify Eval.leaveCall
    leaveFrames (f.orAt frame.site) frames

/-- Leave the machine with a failure, and to the machines that wait what is left of their operands. -/
def quit (m : Machine) (f : Fault) : Eval Machine := do
  let f ← leaveFrames f (m.top :: m.callers)
  Eval.setOperands (m.shrink m.floor).operands
  Eval.fail f

/-- Hand a failure to the innermost of some handlers, or leave the machine. A handler that cannot make
the value to catch hands the new failure on. -/
def unwindTo : List Handler → Machine → Fault → Eval Machine
  | [], m, f => m.quit f
  | h :: handlers, m, f => do
    if f.isFatal then m.quit f
    else
      let (m, f) := m.atHandler h f
      let m := { m with handlers }
      Eval.setCallDepth h.callDepth
      match h.kind with
      | .cleanup => return { m with held := f :: m.held }
      | .catching =>
        match ← Eval.attempt (Eval.caught f) with
        | .ok v => return m.push v
        | .error failure => unwindTo handlers m failure

/-- Hand a failure to the innermost handler, or leave the machine. -/
def unwind (m : Machine) (f : Fault) : Eval Machine := unwindTo m.handlers m f

/-- A failure that ends the session goes on to do so. -/
theorem leaveFrames_fatal (fs : List Frame) {f : Fault} (hf : f.isFatal = true) (s : Session) :
    ∃ g s', g.isFatal = true ∧ (s.terminated = true → s'.terminated = true) ∧
      leaveFrames f fs s = .ok g s' := by
  induction fs generalizing f s with
  | nil => exact ⟨f, s, hf, id, rfl⟩
  | cons a as ih =>
    have hf : (f.orAt a.site).isFatal = true := by rw [Fault.isFatal_orAt, hf]
    unfold leaveFrames
    split
    · exact ih hf (Eval.leaveCall s)
    · exact ih hf s

/-- A failure that ends the session goes past all handlers. -/
theorem unwindTo_fatal (hs : List Handler) (m : Machine) {f : Fault} (hf : f.isFatal = true) (s : Session) :
    ∃ g s', g.isFatal = true ∧ (s.terminated = true → s'.terminated = true) ∧
      unwindTo hs m f s = .error (.fault g) s' := by
  obtain ⟨g, s', hg, ended, left⟩ := leaveFrames_fatal (m.top :: m.callers) hf s
  refine ⟨g, { s' with operands := (m.shrink m.floor).operands }, hg, ended, ?_⟩
  have leaves : m.quit f s = .error (.fault g) { s' with operands := (m.shrink m.floor).operands } := by
    unfold quit
    rw [Eval.bind_eq_of_ok left]
    rfl
  cases hs with
  | nil => exact leaves
  | cons h hs =>
    show (if f.isFatal then _ else _ : Eval Machine) s = _
    rw [if_pos hf]
    exact leaves

/-- Run a machine for at most `fuel` instructions. -/
def run (natives : NativeRunner) (back : Caller) : Nat → Machine → Eval Value
  | 0, _ => throw .outOfFuel
  | fuel + 1, m => do
    match ← m.step natives back with
    | .running m => run natives back fuel m
    | .finished m v =>
      Eval.setOperands m.operands
      return v
    | .failed m f => run natives back fuel (← m.unwind f)

/-- Run a frame that is made with slot zero on top of the operands of the machines that wait. -/
def runFrame (natives : NativeRunner) (back : Caller) (fuel : Nat)
    (make : Nat → Eval (Frame × Array Value)) : Eval Value := do
  let operands := (← get).operands
  let (frame, slots) ← make operands.size
  run natives back fuel (.start operands frame slots)

/-- Call a function value at `site`. -/
def callValue (natives : NativeRunner) (back : Caller) (fuel : Nat) (callee : Value) (args : List Value)
    (site : Location) : Eval Value := do
  match ← Callee.of callee site with
  | .compiled p captured =>
    runFrame natives back fuel fun bottom => enter callee p captured args bottom site
  | .native n => Eval.attributed site [] (natives back n args)
  | .data => Eval.attributed site [] (Library.callData callee args)

/-- Call functions from native code, nested at most `fuel` deep, at the site of the native call. -/
def caller (natives : NativeRunner) : Nat → Caller
  | 0 => fun _ _ => throw .outOfFuel
  | fuel + 1 => fun callee args => do
    callValue natives (caller natives fuel) fuel callee args (← Eval.callSite)

/-- Compile an expanded and checked program and run it. -/
def program (natives : NativeRunner) (fuel : Nat) (f : Form) : Eval Value := do
  let p ← compileProgram f
  match p.selectArity? 0 with
  | some code =>
    runFrame natives (caller natives fuel) fuel fun bottom => return (.ofProgram p code bottom, #[.nil])
  | none => Eval.defect .noFrame

end Machine

end TwinLisp
