import TwinLisp.Proofs.Machine.Cleanup

/-!
# The operands of machines that wait

While a machine runs, the session has the operands of the machines that wait for it. What the machine lends to a
native function comes back to the machine, so a turn of a run leaves those in the session as they are, whatever the
code does. Only a run that is over may hand back fewer of them.

## Main definitions

* `Eval.Spares`: a computation leaves the operands in the session alone.

## Main statements

* `Machine.spares_step`: a step leaves them alone.
* `Machine.Running.operands_of_turn`: so does a turn of a run.
-/

namespace TwinLisp

variable {α β : Type} {s t : Session} {m m' : Machine} {natives : NativeRunner} {back : Caller} {f : Fault}

/-! ### Computations that leave them alone -/

/-- Everything is allowed. -/
def Policy.lax : Policy where
  admits _ := True
  guarded _ := none
  mayFail _ := True
  native _ := trivial
  ordinary _ := trivial

theorem Session.Sound.lax {P : Policy} (hs : s.Sound P) : s.Sound .lax where
  heap := hs.heap
  functions _ := trivial
  names h := by cases h
  root := by
    obtain ⟨scope, found, -⟩ := hs.root
    exact ⟨scope, found, fun h => by cases h⟩
  inhibited := False.elim
  scopes := Nat.zero_le _

/-- If the computation comes to something, the session has the operands that it had before. -/
def Eval.Spares (x : Eval α) (s : Session) : Prop := ∀ a t, x s = .ok a t → t.operands = s.operands

namespace Eval.Spares

theorem pure (a : α) : Spares (Pure.pure a) s := by
  rintro _ _ ⟨⟩
  rfl

theorem bind {x : Eval α} {f : α → Eval β} (hx : Spares x s) (hf : ∀ a t, x s = .ok a t → Spares (f a) t) :
    Spares (x >>= f) s := by
  intro b u h
  cases ran : x s with
  | ok a t =>
    rw [Eval.bind_eq_of_ok ran] at h
    exact (hf a t ran b u h).trans (hx a t ran)
  | error e t =>
    rw [Eval.bind_eq_of_error ran] at h
    cases h

theorem of_obeys {x : Eval α} {Q : α → Prop} (hx : Obeys .lax x Q) (hs : s.Sound .lax) : Spares x s := by
  intro a t ran
  have ends := hx s hs
  rw [ran] at ends
  exact ends.1.operands trivial

theorem andThen {x : Eval α} {f : α → Eval β} {Q : α → Prop} (hx : Obeys .lax x Q) (hs : s.Sound .lax)
    (hf : ∀ a t, t.Sound .lax → Spares (f a) t) : Spares (x >>= f) s := by
  refine (of_obeys hx hs).bind fun a t ran => hf a t ?_
  have ends := hx s hs
  rw [ran] at ends
  exact ends.1.sound hs

end Eval.Spares

namespace Machine

/-! ### One step -/

theorem obeys_trying {x : Eval α} {Q : α → Prop} (hx : Obeys .lax x Q) (next : Machine → α → Progress) :
    Obeys .lax (m.trying x next) ⊤ :=
  hx.attempt.andThen fun r => by cases r <;> exact .done _

theorem obeys_popping {next : Value → Machine → Eval Progress} (h : ∀ v m', Obeys .lax (next v m') ⊤) :
    Obeys .lax (match m.pop? with
      | some (v, m') => next v m'
      | none => pure (m.broken .stackUnderflow)) ⊤ := by
  cases m.pop? with
  | none => exact .done _
  | some popped => exact h _ _

theorem obeys_closure (i : Nat) (isMacro : Bool) : Obeys .lax (m.closure i isMacro) ⊤ := by
  unfold Machine.closure
  split
  · exact .done _
  · split
    · exact .done _
    · exact obeys_trying (.new fun _ _ => trivial) _

theorem obeys_binary (site : Nat) {operation : Value → Value → Except NumericFault Value}
    (ho : ∀ a b, Numeric.FailsOrdinarily (operation a b)) : Obeys .lax (m.binary site operation) ⊤ := by
  unfold Machine.binary
  split
  · exact .done _
  · split
    · exact .done _
    · split
      · exact .done _
      · exact obeys_trying (.attributed (.settle 0 (ho _ _)) _ _) _

theorem obeys_build (n : Nat) {make : List Value → Eval Value} (hx : ∀ vs, Obeys .lax (make vs) ⊤) :
    Obeys .lax (m.build n make) ⊤ := by
  unfold Machine.build
  split
  · exact obeys_trying (hx _) _
  · exact .done _

theorem obeys_loadGlobal (i : Nat) : Obeys .lax (m.loadGlobal i) ⊤ := by
  unfold Machine.loadGlobal
  split
  · refine .get fun s _ => ?_
    split <;> exact .done _
  · exact .done _
  · exact .done _

theorem obeys_defGlobal (i : Nat) : Obeys .lax (m.defGlobal i) ⊤ := by
  unfold Machine.defGlobal
  split
  · exact (Obeys.defineGlobal rfl _).andThen fun _ => .done _
  all_goals exact .done _

theorem obeys_install (kind : HandlerKind) (offset : Int) : Obeys .lax (m.install kind offset) ⊤ :=
  .get fun _ _ => .done _

theorem obeys_callee (v : Value) (site : Location) : Obeys .lax (Callee.of v site) ⊤ := by
  unfold Callee.of
  split
  · refine ((Obeys.callable _).blaming site).andThen fun f => ?_
    split
    · exact .done _
    · exact .done _
    · exact (Obeys.defect trivial).blaming site
  all_goals first
    | exact .done _
    | exact (Obeys.failWith trivial).blaming site

/-- What is lent to a native function is not what the session has. -/
theorem spares_lending (x : Eval Value) : (m.lending x).Spares s := by
  refine .bind (fun r t ran => ?_) fun r _ _ => ?_
  · unfold Eval.lending at ran
    split at ran <;> cases ran <;> rfl
  · split <;> exact .pure _

/-- The computation that makes a frame counts a call, and leaves the operands alone. -/
theorem lands_enter (hs : s.Sound .lax) (callee : Value) (q : Prototype) (captured : Array Value) (args : List Value)
    (bottom : Nat) (site : Location) : Lands .lax s (fun _ _ => True)
      (fun f t => t.callDepth = s.callDepth ∧ Policy.lax.mayFail f.cause)
      (enter callee q captured args bottom site s) := by
  unfold enter
  refine .blaming ?_ site fun _ _ h => h
  cases q.selectArity? args.length with
  | none =>
    have refused : Obeys .lax (do
        Eval.failWith (.arity (← Eval.calleeName q.name) (Overload.accepts q.overloads) args.length)
          : Eval (Frame × Array Value)) ⊤ := (Obeys.calleeName _).andThen fun _ => .failWith trivial
    exact .of_ends (refused s hs) (fun _ _ _ _ _ => trivial) fun _ _ ht _ => ⟨ht.callDepth, trivial⟩
  | some code =>
    refine Lands.bind hs .enterCall fun _ t _ sound entered => ?_
    exact Lands.bind sound (.restOperand sound _ _ entered) fun _ u _ _ _ => .ok (.refl u) trivial

theorem spares_attempt_enter (hs : s.Sound .lax) (callee : Value) (q : Prototype) (captured : Array Value)
    (args : List Value) (bottom : Nat) (site : Location) :
    (Eval.attempt (enter callee q captured args bottom site)).Spares s := by
  intro r t ran
  have lands := lands_enter hs callee q captured args bottom site
  unfold Eval.attempt at ran
  split at ran
  · next made =>
    cases ran
    rw [made] at lands
    exact lands.1.operands trivial
  · next made =>
    cases ran
    rw [made] at lands
    exact lands.1.operands trivial
  · cases ran

/-- A call leaves them alone, whatever is called. -/
theorem spares_call (hs : s.Sound .lax) (argc site : Nat) : (m.call natives back argc site).Spares s := by
  unfold Machine.call
  split
  · exact .pure _
  · next sites _ =>
    dsimp only
    split
    · refine .andThen (obeys_callee _ _).attempt hs fun r t sound => ?_
      split
      · exact .pure _
      · exact .bind (spares_attempt_enter sound _ _ _ _ _ _) fun r _ _ => by cases r <;> exact .pure _
      · exact spares_lending _
      · exact .of_obeys (obeys_trying (.attributed (.callData _ _) _ _) _) sound
    · exact .pure _

theorem spares_ret : (m.ret).Spares s := by
  unfold Machine.ret
  split
  · exact .pure _
  · dsimp only
    split
    · exact .bind (fun _ _ ran => by cases ran; rfl) fun _ _ _ => .pure _
    · exact .pure _

/-- **A step leaves the operands in the session alone.** -/
theorem spares_step (hs : s.Sound .lax) : (m.step natives back).Spares s := by
  unfold Machine.step
  cases m.top.code.code[m.top.ip]? with
  | none => exact .pure _
  | some i =>
    dsimp only
    generalize m.goto (m.top.ip + 1) = m
    unfold execute
    -- The calls are the only instructions that count calls or lend operands.
    cases i with
    | call argc site => exact .andThen (.maybeCollect _) hs fun _ _ sound => spares_call sound argc site
    | ret => exact spares_ret
    | jump offset =>
      refine .of_obeys (Q := ⊤) ?_ hs
      dsimp only
      split
      · exact (Obeys.maybeCollect _).andThen fun _ => .done _
      · exact .done _
    | closure i => exact .of_obeys (obeys_closure i false) hs
    | macroClosure i => exact .of_obeys (obeys_closure i true) hs
    | raise => exact .of_obeys (obeys_popping fun v m' => obeys_trying (.raiseAt (Q := ⊤) _ _) _) hs
    | pushCatch offset => exact .of_obeys (obeys_install _ offset) hs
    | pushFinally offset => exact .of_obeys (obeys_install _ offset) hs
    | loadGlobal i => exact .of_obeys (obeys_loadGlobal i) hs
    | defGlobal i => exact .of_obeys (obeys_defGlobal i) hs
    | arith op site => exact .of_obeys (obeys_binary site (Numeric.failsOrdinarily_arith op)) hs
    | compare op site =>
      refine .of_obeys (obeys_binary site fun a b => ?_) hs
      have fails := Numeric.failsOrdinarily_compareNumbers op a b
      cases hc : Numeric.compareNumbers op a b with
      | ok b => trivial
      | error e => rwa [hc] at fails
    | buildList n => exact .of_obeys (obeys_build n .newList) hs
    | buildVector n => exact .of_obeys (obeys_build n .newVector) hs
    | buildMap n => exact .of_obeys (obeys_build n fun vs => .newMap _) hs
    | buildSet n => exact .of_obeys (obeys_build n .newSet) hs
    | storeLocal i =>
      refine .of_obeys (obeys_popping fun v m' => ?_) hs
      dsimp only
      split <;> exact .done _
    | pop | endScope n | popJumpIfFalse offset => exact .of_obeys (obeys_popping fun v m' => .done _) hs
    | popHandler | rethrow =>
      dsimp only
      split <;> exact .pure _
    | _ => exact .pure _

/-- So does what is done with a failure, if a handler takes it. -/
theorem spares_unwindTo (hs : s.Sound .lax) (handlers : List Handler) (m : Machine) (f : Fault) :
    (unwindTo handlers m f).Spares s := by
  have quits (m : Machine) (f : Fault) (s : Session) : (m.quit f).Spares s := by
    intro a t ran
    obtain ⟨_, _, _, ran⟩ := Eval.of_bind_eq_ok ran
    obtain ⟨_, _, _, ran⟩ := Eval.of_bind_eq_ok ran
    cases ran
  -- A catching handler that cannot make its value hands the failure on, so the next handlers see another session.
  induction handlers generalizing s m f with
  | nil => exact quits m f s
  | cons h handlers ih =>
    unfold unwindTo
    split
    · exact quits m f s
    · refine .bind (fun _ _ ran => by cases ran; rfl) fun _ t ran => ?_
      have sound : t.Sound .lax := by
        cases ran
        exact hs.evolves (.single (.counters _ _ _))
      dsimp only
      split
      · exact .pure _
      · refine .andThen (Obeys.caught _).attempt sound fun r u sound => ?_
        split
        · exact .pure _
        · exact ih sound _ _

/-- **A turn of a run leaves the operands of the machines that wait as they are.** -/
theorem Running.operands_of_turn {P : Policy} {exact : Prop} {base : Nat} {under : Array Value} {ls : List Level}
    {L : Level} (hm : m.Running P exact base under s ls L) (hP : P.Runs exact) (hn : natives.Obedient P)
    (hb : back.Obedient P) (hs : s.Sound P) (turn : m.Turn natives back s t m') : t.operands = s.operands := by
  cases turn with
  | step now => exact spares_step hs.lax _ _ now
  | handled now unwound =>
    have next := hm.step hP hs hn hb
    rw [now] at next
    have sound := hs.evolves next.1.evolves
    exact (spares_unwindTo sound.lax _ _ _ _ _ unwound).trans (spares_step hs.lax _ _ now)

end Machine

end TwinLisp
