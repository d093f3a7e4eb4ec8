import TwinLisp.Machine.Run
import TwinLisp.Proofs.Transparency.Compile
import TwinLisp.Proofs.Transparency.Step

/-!
# Running the machine, with and without collection

Both sides find the same handler for a failure. A failure that ends the session goes past all of them.

## Main definitions

* `Machine.RunsAlike`: two ways to run machines agree.
* `Machine.turn`: one turn of a run.

## Main statements

* `Machine.Match.unwind`: both sides go on at the same handler.
* `Machine.RunsAlike.turn`: a turn does the same on both sides.
* `Machine.run_match`: a run does the same on both sides.
* `Machine.caller_match` and `Machine.program_match`.
-/

namespace TwinLisp

variable {e : Terms} {w w' : World} {s s' t t' : Session}

namespace Machine

/-! ### Leaving frames -/

theorem leaveFrames_match {f g : Fault} {fs gs : List Frame} (hf : f.Match w g)
    (h : List.Forall₂ (Frame.Match w) fs gs) :
    Sim (.transparent e) false w (leaveFrames f fs) (leaveFrames g gs) Fault.Match := by
  induction fs generalizing w f g gs with
  | nil =>
    cases h
    exact .pure hf
  | cons a as ih =>
    cases h with
    | cons hab hs =>
      unfold leaveFrames
      rw [hab.isCounted, hab.site]
      split
      · exact Sim.leavingCall.bind fun hw _ =>
          ih ((hf.mono hw).orAt _) (hs.imp fun _ _ h => h.mono hw)
      · exact ih (hf.orAt _) hs

namespace Match

variable {m m' : Machine}

/-- A failure leaves both machines alike. -/
theorem quit (h : m.Match w m') {f g : Fault} (hf : f.Match w g) :
    Sim (.transparent e) false w (m.quit f) (m'.quit g) Machine.Match := by
  refine (leaveFrames_match hf (.cons h.top h.callers)).bind fun hw hf => ?_
  have left : Value.MatchAll w (m.shrink m.floor).operands.toList (m'.shrink m'.floor).operands.toList := by
    rw [h.floor]
    exact (h.shrink m'.floor).operands
  exact (Sim.setOperands (Value.Match.all_mono left hw)).bind fun hw _ => .fail (hf.mono hw)

theorem dropFrames (n : Nat) {top top' : Frame} {f g : Fault} {fs gs : List Frame}
    (htop : top.Match w top') (hf : f.Match w g) (h : List.Forall₂ (Frame.Match w) fs gs) :
    (Machine.dropFrames n top f fs).1.Match w (Machine.dropFrames n top' g gs).1 ∧
      List.Forall₂ (Frame.Match w) (Machine.dropFrames n top f fs).2.1
        (Machine.dropFrames n top' g gs).2.1 ∧
      (Machine.dropFrames n top f fs).2.2.Match w (Machine.dropFrames n top' g gs).2.2 := by
  induction h generalizing top top' f g with
  | nil => exact ⟨htop, .nil, hf⟩
  | @cons a b as bs hab hs ih =>
    unfold Machine.dropFrames
    rw [hs.length_eq, htop.site]
    split
    · exact ⟨htop, .cons hab hs, hf⟩
    · exact ih hab (hf.orAt _)

theorem atHandler (h : m.Match w m') (k : Handler) {f g : Fault} (hf : f.Match w g) :
    (m.atHandler k f).1.Match w (m'.atHandler k g).1 ∧ (m.atHandler k f).2.Match w (m'.atHandler k g).2 := by
  have dropped := dropFrames k.callers h.top hf h.callers
  unfold Machine.atHandler
  rw [h.held.length_eq]
  generalize Machine.dropFrames k.callers m.top f m.callers = r at dropped ⊢
  generalize Machine.dropFrames k.callers m'.top g m'.callers = r' at dropped ⊢
  obtain ⟨top, callers, f⟩ := r
  obtain ⟨top', callers', g⟩ := r'
  obtain ⟨htop, hcallers, hf⟩ := dropped
  have below : Match w { m with top, callers, held := m.held.drop (m'.held.length - k.held) }
      { m' with top := top', callers := callers', held := m'.held.drop (m'.held.length - k.held) } :=
    { h with top := htop, callers := hcallers, held := List.forall₂_drop _ h.held }
  exact ⟨(below.shrink _).goto _, hf⟩

/-- **A failure leads to the same handler on both sides**, or out of the machine. -/
theorem unwindTo (hs : List Handler) (h : m.Match w m') {f g : Fault} (hf : f.Match w g) :
    Sim (.transparent e) false w (Machine.unwindTo hs m f) (Machine.unwindTo hs m' g) Machine.Match := by
  induction hs generalizing w m m' f g with
  | nil => exact h.quit hf
  | cons k hs ih =>
    unfold Machine.unwindTo
    dsimp only
    rw [← hf.isFatal_eq]
    split
    · exact h.quit hf
    · obtain ⟨hk, hf⟩ := h.atHandler k hf
      have hk : Match w { (m.atHandler k f).1 with handlers := hs }
          { (m'.atHandler k g).1 with handlers := hs } := { hk with handlers := rfl }
      refine (Sim.setCallDepth _).bind fun hw _ => ?_
      have hk := hk.mono hw
      have hf := hf.mono hw
      cases k.kind with
      | cleanup => exact .pure { hk with held := .cons hf hk.held }
      | catching =>
        intro s t hm _
        refine (Sim.caught (q := false) hf hm nofun).attempt (fun f s hf => ?_) fun hF hm' ho => ?_
        · obtain ⟨f₁, s₁, hf₁, kept, left⟩ := unwindTo_fatal hs _ hf s
          obtain ⟨f₂, s₂, hf₂, -, right⟩ := unwindTo_fatal hs _ hf s
          refine ⟨f₁, s₁, f₂, s₂, ⟨hf₁, hf₂⟩, kept, fun self => ?_, left, right⟩
          rw [hk.eq self] at left
          cases left.symm.trans right
          exact ⟨rfl, rfl⟩
        have hk := hk.mono hF.le
        cases ho with
        | ok hv => exact .pure hm' (hk.push hv)
        | error hf => exact ih hk hf hm' nofun

theorem unwind (h : m.Match w m') {f g : Fault} (hf : f.Match w g) :
    Sim (.transparent e) false w (m.unwind f) (m'.unwind g) Machine.Match := by
  rw [Machine.unwind, Machine.unwind, h.handlers]
  exact h.unwindTo _ hf

end Match

/-! ### Runs -/

/-- Two ways to run machines agree. -/
def RunsAlike (e : Terms) (run run' : Machine → Eval Value) : Prop :=
  ∀ ⦃w : World⦄ ⦃s t : Session⦄ ⦃m m' : Machine⦄, s.Match (.transparent e) w t → m.Match w m' →
    Agree (.transparent e) nothing w s Value.Match (run m s) (run' m' t)

/-- One turn of a run: a step, and what is done with the machine after it. -/
def turn (natives : NativeRunner) (back : Caller) (next : Machine → Eval Value) (m : Machine) :
    Eval Value := do
  match ← m.step natives back with
  | .running m => next m
  | .finished m v =>
    Eval.setOperands m.operands
    return v
  | .failed m f => next (← m.unwind f)

/-- Run a frame on top of the operands of the machines that wait, where `run` runs machines. -/
def runFrameBy (run : Machine → Eval Value) (make : Nat → Eval (Frame × Array Value)) : Eval Value := do
  let operands := (← get).operands
  let (frame, slots) ← make operands.size
  run (.start operands frame slots)

/-- Call a function value at `site`, where `run` runs machines. -/
def callBy (run : Machine → Eval Value) (natives : NativeRunner) (back : Caller) (callee : Value)
    (args : List Value) (site : Location) : Eval Value := do
  match ← Callee.of callee site with
  | .compiled p captured => runFrameBy run fun bottom => enter callee p captured args bottom site
  | .native n => Eval.attributed site [] (natives back n args)
  | .data => Eval.attributed site [] (Library.callData callee args)

/-- Compile an expanded and checked program and run it, where `run` runs machines. -/
def programBy (run : Machine → Eval Value) (f : Form) : Eval Value := do
  let p ← compileProgram f
  match p.selectArity? 0 with
  | some code => runFrameBy run fun bottom => return (.ofProgram p code bottom, #[.nil])
  | none => Eval.defect .noFrame

variable {natives natives' : NativeRunner} {back back' : Caller} {run run' : Machine → Eval Value}

/-- **A turn does the same on both sides.** -/
theorem RunsAlike.turn (h : RunsAlike e run run') (hn : NativeRunner.Match (.transparent e) natives natives')
    (hb : Caller.Match (.transparent e) back back') :
    RunsAlike e (turn natives back run) (turn natives' back' run') := by
  intro w s t m m' hm hmm
  have advance := hmm.step hn hb hm
  unfold Machine.turn
  change Agree (.transparent e) nothing w s Value.Match (EStateM.bind (m.step natives back) _ s)
    (EStateM.bind (m'.step natives' back') _ t)
  unfold EStateM.bind
  generalize m.step natives back s = r at advance ⊢
  generalize m'.step natives' back' t = r' at advance ⊢
  cases advance with
  | agree h' =>
    cases h' with
    | ok hF hm' hp =>
      refine Agree.preserved hF ?_
      cases hp with
      | running hk => exact h hm' hk
      | finished hk hv =>
        refine (Sim.setOperands (q := false) hk.operands).andThen hm' fun hF hm'' _ => ?_
        exact .pure hm'' (hv.mono hF.le)
      | failed hk hf => exact (hk.unwind hf).andThen hm' fun _ hm'' hk => h hm'' hk
    | fault hF hm' hf => exact .fault hF hm' hf
    | outOfFuel hs => exact .outOfFuel hs
    | fatal hf hs =>
      refine .fatal hf fun self => ?_
      obtain ⟨ended, rfl⟩ := hs self
      exact ⟨ended, rfl⟩
    | fatalRight he hf => exact .fatalRight he hf
  | fatal hf hs =>
    obtain ⟨g, s'', hg, kept, stopped⟩ := unwindTo_fatal _ _ hf _
    dsimp only [unwind]
    rw [Eval.bind_eq_of_error stopped]
    refine .fatal hg fun self => ?_
    obtain ⟨ended, rfl⟩ := hs self
    dsimp only
    rw [Eval.bind_eq_of_error stopped]
    exact ⟨kept ended, rfl⟩
  | fatalRight he hf =>
    obtain ⟨g, t'', hg, -, stopped⟩ := unwindTo_fatal _ _ hf _
    dsimp only [unwind]
    rw [Eval.bind_eq_of_error stopped]
    exact .fatalRight he hg

/-- Both sides run frames alike that they make alike. -/
theorem RunsAlike.runFrameBy (h : RunsAlike e run run') {make make' : Nat → Eval (Frame × Array Value)}
    (hm : s.Match (.transparent e) w t)
    (made : ∀ bottom, Sim (.transparent e) false w (make bottom) (make' bottom) Entered) :
    Agree (.transparent e) nothing w s Value.Match (runFrameBy run make s) (runFrameBy run' make' t) := by
  have size : s.operands.size = t.operands.size := by simpa using hm.operands.length_eq
  unfold Machine.runFrameBy
  rw [Eval.get_bind, Eval.get_bind, size]
  refine (made t.operands.size).andThen hm fun hF hm' entered => ?_
  exact h hm' (.start (hm.operands_mono hF.le) entered.1 entered.2)

/-- Both sides call alike. -/
theorem RunsAlike.callBy (h : RunsAlike e run run') (hn : NativeRunner.Match (.transparent e) natives natives')
    (hb : Caller.Match (.transparent e) back back') {callee callee' : Value} {args args' : List Value}
    (site : Location) (hm : s.Match (.transparent e) w t) (hcallee : callee.Match w callee')
    (ha : Value.MatchAll w args args') : Agree (.transparent e) nothing w s Value.Match
      (callBy run natives back callee args site s) (callBy run' natives' back' callee' args' site t) := by
  refine (Sim.callee hcallee site).andThen hm fun hF hm₁ hc => ?_
  have hcallee := hcallee.mono hF.le
  have ha := Value.Match.all_mono ha hF.le
  cases hc with
  | compiled hp hcap => exact h.runFrameBy hm₁ fun bottom => enter_match bottom site hcallee hp hcap ha
  | native n => exact ((hn n hb ha).attributed _ _).agree hm₁
  | data => exact ((Sim.callData hcallee ha).attributed _ _).agree hm₁

/-- Functions are called alike at the site of a native call. -/
theorem RunsAlike.callBack (h : RunsAlike e run run') (hn : NativeRunner.Match (.transparent e) natives natives')
    (hb : Caller.Match (.transparent e) back back') : Caller.Agree (.transparent e)
      (fun callee args => do Machine.callBy run natives back callee args (← Eval.callSite))
      (fun callee args => do Machine.callBy run' natives' back' callee args (← Eval.callSite)) := by
  intro w s t callee callee' args args' hm hcallee ha
  refine (Sim.callSite (q := false)).andThen hm fun {w' s' t' l l'} hF hm' hl => ?_
  cases hl
  exact h.callBy hn hb l hm' (hcallee.mono hF.le) (Value.Match.all_mono ha hF.le)

/-- Both sides run a program alike. -/
theorem RunsAlike.programBy (h : RunsAlike e run run') {f : Form} (hm : s.Match (.transparent e) w t)
    (hf : f.Mentions w.handle) : Agree (.transparent e) nothing w s Value.Match (programBy run f s)
      (programBy run' f t) := by
  refine (compileProgram_match hf).andThen hm fun {w₁ s₁ t₁ p q} _ hm₁ hp => ?_
  have selected := hp.select 0
  generalize hs : p.selectArity? 0 = x at selected ⊢
  generalize q.selectArity? 0 = y at selected ⊢
  cases selected with
  | none => exact Sim.agree (.defect _ rfl) hm₁
  | @some c d hcd =>
    have start (bottom : Nat) : (Frame.ofProgram p c bottom).Match w₁ (.ofProgram q d bottom) := {
      prototype := hp
      code := hcd
      mem := Prototype.mem_of_select hs
      ip := rfl
      bottom := rfl
      captured := .nil
      site := rfl
      isCounted := rfl }
    exact h.runFrameBy hm₁ fun bottom => .pure ⟨start bottom, .cons .nil .nil⟩

/-- **A run does the same on both sides**, whatever the fuel. -/
theorem run_match (hn : NativeRunner.Match (.transparent e) natives natives')
    (hb : Caller.Match (.transparent e) back back') (fuel : Nat) :
    RunsAlike e (Machine.run natives back fuel) (Machine.run natives' back' fuel) := by
  induction fuel with
  | zero => exact fun _ _ _ _ _ hm _ => .outOfFuel hm.eq
  | succ fuel ih => exact ih.turn hn hb

/-- **Functions are called alike.** -/
theorem caller_match (hn : NativeRunner.Match (.transparent e) natives natives') (fuel : Nat) :
    Caller.Agree (.transparent e) (caller natives fuel) (caller natives' fuel) := by
  induction fuel with
  | zero => exact fun hm _ _ => .outOfFuel hm.eq
  | succ fuel ih =>
    have back : Caller.Match (.transparent e) (caller natives fuel) (caller natives' fuel) :=
      Caller.Agree.quiet ih
    intro w s t callee callee' args args' hm hcallee ha
    exact (run_match hn back fuel).callBack hn back hm hcallee ha

/-- **A program does the same on both sides.** -/
theorem program_match (hn : NativeRunner.Match (.transparent e) natives natives') (fuel : Nat) {f : Form}
    (hm : s.Match (.transparent e) w t) (hf : f.Mentions w.handle) :
    Agree (.transparent e) nothing w s Value.Match (program natives fuel f s)
      (program natives' fuel f t) :=
  (run_match hn (Caller.Agree.quiet (caller_match hn fuel)) fuel).programBy hm hf

end Machine

end TwinLisp
