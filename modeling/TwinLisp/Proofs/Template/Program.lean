import TwinLisp.Proofs.Engine.Requests
import TwinLisp.Proofs.Template.Compiled
import TwinLisp.Proofs.Template.TreeWalk

/-!
# Templates as programs

Where the code of a template is a program of its own, both backends take it from the beginning to the end, and
the course of the template says how that ends.

## Main definitions

* `Template.Course.Allows`: a course allows for the end of a computation.

## Main statements

* `Template.Takes.run`: the walker runs the program on the course of the template.
* `Template.Performs.run`: so does the machine.
-/

namespace TwinLisp

/-! ### Runs of machines -/

namespace Machine

variable {natives : NativeRunner} {back : Caller} {s t : Session} {m m' : Machine} {f : Fault}

theorem leaveFrames_cause (f : Fault) (frames : List Frame) (s : Session) :
    ∃ g t, leaveFrames f frames s = .ok g t ∧ g.cause = f.cause := by
  induction frames generalizing f s with
  | nil => exact ⟨f, s, rfl, rfl⟩
  | cons frame frames ih =>
    unfold leaveFrames
    split
    · obtain ⟨g, t, left, cause⟩ := ih (f.orAt frame.site) (Eval.leaveCall s)
      exact ⟨g, t, left, cause.trans (Fault.cause_orAt ..)⟩
    · obtain ⟨g, t, left, cause⟩ := ih (f.orAt frame.site) s
      exact ⟨g, t, left, cause.trans (Fault.cause_orAt ..)⟩

/-- A failure that no handler takes leaves the machine. -/
theorem unwind_left (own : m.handlers = [] ∨ f.isFatal = true) (s : Session) :
    ∃ g t, m.unwind f s = .error (.fault g) t ∧ g.cause = f.cause := by
  obtain ⟨g, t, left, cause⟩ := leaveFrames_cause f (m.top :: m.callers) s
  obtain ⟨u, leaves⟩ : ∃ u, m.quit f s = .error (.fault g) u := ⟨_, Eval.bind_eq_of_ok left⟩
  refine ⟨g, u, ?_, cause⟩
  unfold unwind
  cases handlers : m.handlers with
  | nil => exact leaves
  | cons h outer =>
    have fatal : f.isFatal = true := own.resolve_left (by simp [handlers])
    unfold unwindTo
    rw [if_pos fatal]
    exact leaves

/-- A run goes on from anywhere that it passes through, unless it has run out of fuel by then. -/
theorem Through.run {I : Machine → Prop} (path : Through natives back I s m t m') (fuel : Nat) :
    (∃ u, m.run natives back fuel s = .error .outOfFuel u) ∨
      ∃ left, m.run natives back fuel s = m'.run natives back left t := by
  induction path with
  | refl => exact .inr ⟨fuel, rfl⟩
  | @turn t _ _ m'' _ _ turn ih =>
    obtain out | ⟨left, same⟩ := ih
    · exact .inl out
    rw [same]
    cases left with
    | zero => exact .inl ⟨t, rfl⟩
    | succ left =>
      refine .inr ⟨left, ?_⟩
      conv => lhs; unfold Machine.run
      cases turn with
      | step now => exact Eval.bind_eq_of_ok now
      | handled now unwound => exact (Eval.bind_eq_of_ok now).trans (Eval.bind_eq_of_ok unwound)

/-- What the last step comes to is what the run comes to, unless it has run out of fuel by then. -/
theorem Through.ends {I : Machine → Prop} (path : Through natives back I s m t m') (fuel : Nat)
    {r : EStateM.Result Stop Session Value} (last : ∀ left, m'.run natives back (left + 1) t = r) :
    Template.Ending.of (m.run natives back fuel s) = .unsettled ∨ m.run natives back fuel s = r := by
  obtain ⟨u, out⟩ | ⟨left, same⟩ := path.run fuel
  · rw [out]
    exact .inl rfl
  · cases left with
    | zero => exact .inl (congrArg Template.Ending.of same)
    | succ left => exact .inr (same.trans (last left))

/-- The outermost frame returns. -/
theorem step_ret {v : Value} (fetched : m.top.code.code[m.top.ip]? = some .ret) (outermost : m.callers = [])
    (uncounted : m.top.isCounted = false) (pushed : m.operands.back? = some v) :
    ∃ m', m.step natives back s = .ok (.finished m' v) s ∧ m'.operands = m.operands.pop.shrink m.top.bottom := by
  rw [step_of_fetched fetched]
  have popped : (m.goto (m.top.ip + 1)).pop? = some (v, (m.goto (m.top.ip + 1)).withOperands m.operands.pop) := by
    unfold pop?
    rw [show (m.goto (m.top.ip + 1)).operands = m.operands from rfl, pushed]
    rfl
  unfold execute ret
  rw [popped]
  dsimp only
  rw [if_neg (by simpa [goto, withOperands] using uncounted),
    leave_of_nil (m := (m.goto (m.top.ip + 1)).withOperands m.operands.pop) outermost]
  exact ⟨_, rfl, rfl⟩

end Machine

/-! ### Programs -/

/-- The form is a program that may be run: it has been checked, and what it mentions is there. -/
structure Session.MayRun (P : Policy) (e : Terms) (s : Session) (f : Form) : Prop where
  sound : s.Sound P
  accepted : f.Accepted none false
  known : f.Mentions (· < e.since.nextHandle)
  whole : ∃ w, s.Match (.transparent e) w s ∧ f.Mentions (Covered nothing w s)

/-- Where the code of programs begins. -/
def CompilePlace.outset : CompilePlace := ⟨.unknown, 0, 1, ⟨none, []⟩, [], none⟩

namespace Template

variable {α : Type} {P : Policy} {e : Terms} {hosts : HostTable} {natives : NativeRunner} {back : Caller}
variable {s t : Session} {f : Form} {x : Course Value} {n fuel : Nat}

/-- The course allows for the end of a computation, or that has run out of fuel, or nothing is said. -/
def Course.Allows (x : Course α) (s : Session) (r : EStateM.Result Stop Session α) : Prop :=
  x s .unsettled ∨ Ending.of r = .unsettled ∨ x s (.of r)

/-- Where the course always says something, a value that is returned is one that it allows for. -/
theorem Course.Allows.value {y : Course α} {a : α} (h : y.Allows s (.ok a t)) (settled : y.Settled) :
    y s (.value a t) := by
  obtain unsettled | out | taken := h
  · exact absurd unsettled (settled s)
  · cases out
  · exact taken

/-- **The walker runs a program on the course that it takes for it.** -/
theorem Takes.run (takes : Takes P e (Eval.runNative hosts) n Scopes.root f x)
    (enough : n + f.height < fuel) (ready : s.MayRun P e f) (supplies : s.Supplies Scopes.root) :
    x.Allows s (TreeWalk.run (Eval.runNative hosts) fuel f s) := by
  obtain ⟨w, session, covered⟩ := ready.whole
  have place : WalkPlace.Match w ⟨.unknown, Scopes.root, []⟩ ⟨.unknown, Scopes.root, []⟩ :=
    ⟨rfl, rfl, session.scopes.2.root, .inl rfl, fun _ => rfl⟩
  have stands : Stands P e w ⟨.unknown, Scopes.root, []⟩ s := ⟨session, place, ready.sound⟩
  have fits : Fits e w ⟨.unknown, Scopes.root, []⟩ s none f :=
    ⟨covered.imp fun _ h => h.weaken fun _ => False.elim, ready.known, ready.accepted⟩
  exact (takes enough rfl stands fits supplies).imp id fun ⟨taken, _⟩ => .inr taken

/-! ### Programs on the machine -/

/-- The code of a program was assembled for its form, and the program returns behind it. -/
theorem compileProgram_eq {q : Prototype} (compiled : compileProgram f s = .ok q t) : ∃ code b c,
    Compiler.within f.height .outset f ⟨.empty, [[]]⟩ s = .ok (code, b) t ∧ q.selectArity? 0 = some c ∧
      c.code = (code.map Prod.fst ++ [Instruction.ret]).toArray ∧
      b.tables = ⟨c.constants, c.sites, c.prototypes.toArray⟩ := by
  obtain ⟨⟨code, b⟩, t', ran, last⟩ := Eval.of_bind_eq_ok compiled
  cases last
  exact ⟨code, b, _, ran, rfl, by simp [CompilePlace.emit], rfl⟩

/-- Nothing has been assembled where a program begins. -/
theorem Compiling.outset (ready : s.MayRun P e f) : Compiling P e .outset none .outset ⟨.empty, [[]]⟩ s := by
  obtain ⟨w, session, -⟩ := ready.whole
  have stands : TwinLisp.Stands none .outset [] ⟨[], 0⟩ :=
    ⟨.cons ⟨Nat.one_pos, fun _ h => absurd h List.not_mem_nil⟩ .nil, trivial, fun h => by cases h⟩
  have fits : Assembly.Fits P [] ⟨.empty, [[]]⟩ := ⟨rfl, fun q hq => by simp [CodeTables.empty] at hq⟩
  refine ⟨rfl, ⟨[], ⟨[], 0⟩, stands, fits⟩, ready.sound, session.heap.since, fun b _ =>
    ⟨fun F hF => ?_, fun u hu => ?_⟩⟩
  · obtain rfl := List.mem_singleton.1 hF
    exact ⟨rfl, (Option.some_ne_none b.name).symm⟩
  · obtain rfl := List.mem_singleton.1 hu
    rfl

/-- A machine starts with the code of a program. -/
theorem Arrives.outset (hl : ∀ limit, P.mayFail (.codeTooLarge limit)) (ready : s.MayRun P e f) {q : Prototype}
    (compiled : compileProgram f s = .ok q t) {c : ArityCode Prototype}
    (selected : q.selectArity? 0 = some c) {code : Code} {b : Assembly}
    (instructions : c.code = (code.map Prod.fst ++ [Instruction.ret]).toArray)
    (tables : b.tables = ⟨c.constants, c.sites, c.prototypes.toArray⟩) (supplies : t.Supplies Scopes.root) :
    Arrives P False e t.callDepth (.ofProgram t.operands q c) .outset code b t t (.ofProgram t.operands q c) := by
  obtain ⟨w, session, covered⟩ := ready.whole
  have obeys := Obeys.compileProgram hl ready.accepted s ready.sound
  have agrees := (compileProgram_match (covered.imp fun _ h => h.1)).agree (K := nothing) session
  rw [compiled] at obeys agrees
  obtain ⟨leads, typed, program⟩ := obeys
  obtain ⟨c', selected', starts⟩ := Frame.starts_ofProgram (P := P) typed program False.elim
  cases selected.symm.trans selected'
  cases agrees with
  | ok preserved matched same =>
    have code := same.select 0
    rw [selected] at code
    cases code with
    | some code =>
      have frame : (Frame.ofProgram q c t.operands.size).Match _ (.ofProgram q c t.operands.size) := {
        prototype := same
        code
        mem := Prototype.mem_of_select selected
        ip := rfl
        bottom := rfl
        captured := .nil
        site := rfl
        isCounted := rfl }
      obtain ⟨ls, L, running⟩ :
          ∃ ls L, (Machine.ofProgram t.operands q c).Running P False t.callDepth t.operands t ls L :=
        Machine.running_start (starts t.operands.size) rfl
          (show t.callDepth = t.callDepth + (Frame.ofProgram q c t.operands.size).counts from rfl)
      refine ⟨.refl, ⟨leads.sound ready.sound, ⟨_, ls, L, running, fun _ => rfl⟩, _, matched,
        .start matched.operands frame (.cons .nil .nil)⟩, ⟨rfl, ?_, ?_, ?_⟩, ⟨0, #[], by rw [Array.append_empty]; rfl⟩,
        supplies⟩
      · change (t.operands ++ #[Value.nil]).size = t.operands.size + 1
        simp
      · intro k entry found
        have shorter := (List.getElem?_eq_some_iff.1 found).1
        change c.code[0 + k]? = some entry.1
        rw [Nat.zero_add, instructions, List.getElem?_toArray, List.getElem?_append_left (by simpa using shorter),
          List.getElem?_map, found]
        rfl
      · rw [tables]
        exact .refl _

/-- **The machine runs a program on the course that it takes for its code.** -/
theorem Performs.run (equipped : Machine.Equipped P False e natives back) (hl : ∀ limit, P.mayFail (.codeTooLarge limit))
    (ready : s.MayRun P e f) {q : Prototype} (compiled : compileProgram f s = .ok q t) {c : ArityCode Prototype}
    (selected : q.selectArity? 0 = some c) (supplies : t.Supplies Scopes.root)
    (performs : Performs P False e t.callDepth natives back .outset (.ofProgram t.operands q c) f x) :
    x.Allows t (Machine.run natives back fuel (.ofProgram t.operands q c) t) := by
  obtain ⟨code, b, c', ran, selected', instructions, tables⟩ := compileProgram_eq compiled
  cases selected.symm.trans selected'
  have arrives := Arrives.outset hl ready compiled selected instructions tables supplies
  obtain unsettled | ⟨r, taken, comes⟩ := performs (.outset ready) ready.accepted ready.known ran arrives
  · exact .inl unsettled
  cases comes with
  | @value v u path supplies =>
    have fetched : c.code[CompilePlace.outset.offset + code.length]? = some .ret := by
      change c.code[0 + code.length]? = some .ret
      rw [Nat.zero_add, instructions, List.getElem?_toArray, List.getElem?_append_right (by simp)]
      simp
    let last := ((Machine.ofProgram t.operands q c).goto (CompilePlace.outset.offset + code.length)).push v
    obtain ⟨m', now, left⟩ := Machine.step_ret (m := last) (s := u) fetched rfl rfl (Array.back?_push ..)
    -- The program hands back the operands that it started on, and the session has had them all the time.
    have kept : m'.operands = u.operands := by
      rw [arrives.poised.operands equipped path, left]
      change ((t.operands ++ #[Value.nil]).push v).pop.shrink t.operands.size = t.operands
      simp
    refine .inr ((path.ends fuel (r := .ok v u) fun left => ?_).imp_right fun same => ?_)
    · unfold Machine.run
      rw [Eval.bind_eq_of_ok now]
      change EStateM.Result.ok v { u with operands := m'.operands } = _
      rw [kept]
    · rw [same]
      exact taken
  | @failure u u' m' m'' g path inside now own =>
    -- A program begins without handlers, so those that the code leaves as they were are none.
    obtain ⟨-, -, handlers⟩ := Machine.frames_of_failed (Machine.stacks_step _ _ _ now) rfl
    obtain ⟨g', v, left, cause⟩ := Machine.unwind_left (own.imp_left (handlers.trans ·)) u'
    refine .inr ((path.ends fuel (r := .error (.fault g') v) fun more => ?_).imp_right fun same => ?_)
    · unfold Machine.run
      rw [Eval.bind_eq_of_ok now]
      exact Eval.bind_eq_of_error left
    · rw [same]
      exact (congrArg (fun c => x t (.failure c)) cause).mpr taken

end Template

end TwinLisp
