import TwinLisp.Proofs.Machine.Run

/-!
# Compiled code is safe to run

A checked program is compiled to well-formed code: each instruction has a location and a level, refers to what
is there, and leads to where the levels agree. When a machine runs such code, its running frame has exactly as
many operands as the level says, so that no instruction ever misses one.

The exception is code that cuts the stack down to nothing. The height of a loop is given to `recur` in sixteen
bits, and wraps around to zero where there are more operands than these can count.

## Main definitions

* `Policy.exact`: what a machine may do whose heights are exact.
* `Machine.Placed`: a machine stands at an instruction with the operands that its level tells.

## Main statements

* `compileProgram_safe`: programs are compiled to well-formed code, which is safe unless it cuts the stack.
-/

namespace TwinLisp

/-- What a machine may do whose heights are exact. All its failures are ordinary: no operand, instruction,
constant, call site, captured value, handler or held failure is ever missing. -/
def Policy.exact (guarded : Symbol → Option Native) : Policy :=
  (Policy.running guarded True).failing Cause.IsOrdinary id

theorem Policy.runs_exact (guarded : Symbol → Option Native) : (exact guarded).Runs True :=
  ⟨fun _ => Iff.rfl, fun h => absurd trivial h, Iff.rfl⟩

/-- The machine stands at an instruction of well-formed code, with as many operands as its level tells. The
instruction finds what it refers to. -/
structure Machine.Placed (guarded : Symbol → Option Native) (m : Machine) (ls : List Level) (L : Level)
    (i : Instruction) : Prop where
  code : m.top.code.TypedBy guarded m.top.captured.size ls
  level : ls[m.top.ip]? = some L
  fetches : m.top.code.code[m.top.ip]? = some i
  operands : m.operands.size = m.top.bottom + L.height
  flows : i.Flows (m.top.code.context guarded m.top.captured.size) (ls[·]?) (m.top.ip + 1) L

variable {P : Policy} {base : Nat} {under : Array Value} {s : Session} {ls : List Level} {L : Level} {m : Machine}

/-- A running machine whose heights are exact stands at an instruction. -/
theorem Machine.Running.placed (hm : m.Running P True base under s ls L) : ∃ i, m.Placed P.guarded ls L i := by
  obtain ⟨_, _, _, _, _, runs, _⟩ := hm.around.split
  have typed := runs.typed
  have bound : m.top.ip < m.top.code.code.size := by
    rw [← typed.levels]
    exact (List.getElem?_eq_some_iff.1 hm.level).1
  have found : m.top.code.code[m.top.ip]? = some m.top.code.code[m.top.ip] :=
    Array.getElem?_eq_getElem bound
  exact ⟨_, typed, hm.level, found, (hm.operands trivial).size, typed.flows hm.level found⟩

/-- **A frame that returns leaves the operands beneath its own as they were, with the result on top.** -/
theorem Machine.Placed.ret {guarded : Symbol → Option Native} (hm : m.Placed guarded ls L .ret)
    {caller : Frame} {callers : List Frame} (hc : m.callers = caller :: callers) (natives : NativeRunner)
    (back : Caller) (s : Session) : ∃ v t, m.operands.back? = some v ∧
      m.step natives back s = .ok (.running { m with
        top := caller, callers, operands := (m.operands.shrink m.top.bottom).push v }) t := by
  have one : 1 ≤ L.height := hm.flows.has.1
  cases hb : m.operands.back? with
  | none =>
    have empty : m.operands.size = 0 := by simpa using hb
    rw [hm.operands] at empty
    omega
  | some v =>
    have popped : (m.goto (m.top.ip + 1)).pop? =
        some (v, (m.goto (m.top.ip + 1)).withOperands m.operands.pop) := by
      unfold Machine.pop?
      rw [show (m.goto (m.top.ip + 1)).operands = m.operands from rfl, hb]
      rfl
    have beneath : m.operands.pop.shrink m.top.bottom = m.operands.shrink m.top.bottom := by
      have size := hm.operands
      rw [← Array.toList_inj, Array.toList_shrink, Array.toList_shrink, Array.toList_pop,
        List.dropLast_eq_take, List.take_take, Array.length_toList]
      congr 1
      omega
    have left : ((m.goto (m.top.ip + 1)).withOperands m.operands.pop).leave v = .running { m with
        top := caller, callers, operands := (m.operands.shrink m.top.bottom).push v } := by
      rw [leave_of_cons (m := (m.goto (m.top.ip + 1)).withOperands m.operands.pop) hc, ← beneath]
      rfl
    unfold Machine.step
    rw [hm.fetches]
    unfold Machine.execute Machine.ret
    dsimp only
    rw [popped]
    dsimp only
    rw [left]
    split
    · exact ⟨v, Eval.leaveCall s, rfl, rfl⟩
    · exact ⟨v, s, rfl, rfl⟩

/-- Wherever a run of the machine comes by, the machine stands at an instruction, and what that fails with is
ordinary. -/
def Machine.RunsSafely (guarded : Symbol → Option Native) (natives : NativeRunner) (back : Caller)
    (s : Session) (m : Machine) : Prop :=
  ∀ t m', m.Steps natives back s t m' → (∃ ls L i, m'.Placed guarded ls L i) ∧
    (∀ f u, m'.step natives back t ≠ .error (.fault f) u) ∧
    ∀ failed f u, m'.step natives back t = .ok (.failed failed f) u → f.cause.IsOrdinary

/-- A machine that starts a frame runs safely. -/
theorem Machine.runsSafely_start {guarded : Symbol → Option Native} {frame : Frame} {slots : Array Value}
    (starts : frame.Starts (Policy.exact guarded) True slots) (bottom : frame.bottom = s.operands.size)
    (counted : frame.counts ≤ s.callDepth) (hs : s.Sound (Policy.exact guarded)) {natives : NativeRunner}
    (hn : natives.Obedient (Policy.exact guarded)) {back : Caller}
    (hb : back.Obedient (Policy.exact guarded)) :
    (Machine.start s.operands frame slots).RunsSafely guarded natives back s := by
  have runs := Policy.runs_exact guarded
  obtain ⟨_, _, running⟩ := Machine.running_start starts bottom (Nat.sub_add_cancel counted).symm
  intro t m' steps
  obtain ⟨drifts, ls, L, running⟩ := running.steps runs hn hb hs (fun _ => rfl) steps
  have next := running.step runs (hs.evolves drifts.evolves) hn hb
  refine ⟨⟨ls, L, running.placed⟩, fun f u hf => ?_, fun failed f u hf => ?_⟩
  · rw [hf] at next
    exact next.2
  · rw [hf] at next
    exact next.2.2

/-- **A checked program is compiled to well-formed code.** Unless that code, or a function that was compiled
before, cuts the stack down to nothing, a run of the program misses no operand and nothing else that its
instructions refer to. -/
theorem compileProgram_safe {limit : Nat} {f : Form} (h : check limit f = .ok ())
    {guarded : Symbol → Option Native} {s t : Session} (hs : s.Sound (Policy.exact guarded))
    {q : Prototype} (compiled : compileProgram f s = .ok q t) :
    q.Each (ArityCode.Typed guarded) ∧
      (q.Each ArityCode.Uncut → ∃ c, q.selectArity? 0 = some c ∧
        ∀ natives : NativeRunner, natives.Obedient (Policy.exact guarded) → ∀ fuel,
          (Machine.start t.operands (.ofProgram q c t.operands.size) #[.nil]).RunsSafely guarded natives
            (Machine.caller natives fuel) t) := by
  let Q := (Policy.exact guarded).failing (fun c => c.IsOrdinary ∨ ∃ limit, c = .codeTooLarge limit) .inl
  have compiles := Obeys.compileProgram (P := Q) (fun limit => .inr ⟨limit, rfl⟩) (accepted_of_check h) s
    hs.failing
  rw [compiled] at compiles
  obtain ⟨leads, typed, program⟩ := compiles
  refine ⟨typed, fun uncut => ?_⟩
  obtain ⟨c, selected, starts⟩ := Frame.starts_ofProgram (P := Policy.exact guarded) typed
    program fun _ : True => uncut
  refine ⟨c, selected, fun natives hn fuel => ?_⟩
  have runs := Policy.runs_exact guarded
  exact Machine.runsSafely_start (starts t.operands.size) rfl (Nat.zero_le _) (leads.of_failing.sound hs) hn
    (Obeys.machineCaller runs hn fuel)

end TwinLisp
