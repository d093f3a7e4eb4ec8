import TwinLisp.Machine.Run

/-!
# What a step changes

A step of the machine works at the top of the frames, the handlers and the held failures. Said once for all
instructions, this is all that is needed to follow a frame or a handler through a run. Of the operands nothing is
said here: a step may take off any of them.

## Main definitions

* `Machine.Alike`: machines that differ in the position of the running frame and in the operands only.
* `Machine.Stacks`: what a step does to frames, handlers and held failures.

## Main statements

* `Machine.stacks_step`: a step changes these at the top only.
-/

namespace TwinLisp

variable {α β : Type} {s : Session} {m m' m'' : Machine} {natives : NativeRunner} {back : Caller}
variable {f : Fault}

/-- All results of the computation satisfy `Q`. -/
def Eval.Yields (x : Eval α) (Q : α → Prop) : Prop := ∀ s a t, x s = .ok a t → Q a

namespace Eval.Yields

variable {Q : α → Prop} {R : β → Prop}

theorem something (x : Eval α) : Yields x fun _ => True := fun _ _ _ _ => trivial

theorem pure {a : α} (ha : Q a) : Yields (Pure.pure a) Q := by
  rintro s b t ⟨⟩
  exact ha

theorem fail (f : Fault) : Yields (Eval.fail f) Q := by
  rintro s a t ⟨⟩

theorem bind {x : Eval α} {f : α → Eval β} (hf : ∀ a, Yields (f a) R) : Yields (x >>= f) R := by
  intro s b t h
  cases hx : x s with
  | ok a u =>
    rw [Eval.bind_eq_of_ok hx] at h
    exact hf a u b t h
  | error e u =>
    rw [Eval.bind_eq_of_error hx] at h
    cases h

theorem raiseAt (l : Location) (v : Value) : Yields (Eval.raiseAt l v) Q := bind fun _ => fail _

theorem attempt {x : Eval α} (hx : Yields x Q) :
    Yields (Eval.attempt x) fun r => ∀ a, r = .ok a → Q a := by
  intro s r t h a ha
  unfold Eval.attempt at h
  cases hr : x s with
  | ok b u =>
    rw [hr] at h
    cases h
    cases ha
    exact hx s a t hr
  | error e u =>
    rw [hr] at h
    cases e <;> cases h
    cases ha

end Eval.Yields

/-- What stays of a frame while its code is run. -/
def Frame.fixed (f : Frame) : Frame := { f with ip := 0 }

namespace Machine

/-- Nothing but the position of the running frame and the operands may differ. -/
def Alike (m m' : Machine) : Prop :=
  ∃ ip operands, m' = { m with top := { m.top with ip }, operands }

theorem Alike.refl (m : Machine) : m.Alike m := ⟨_, _, rfl⟩

theorem Alike.pop {v : Value} (h : m.Alike m') (hm : m'.pop? = some (v, m'')) : m.Alike m'' := by
  obtain ⟨ip, operands, rfl⟩ := h
  unfold Machine.pop? at hm
  split at hm <;> cases hm
  exact ⟨_, _, rfl⟩

theorem Alike.withOperands (h : m.Alike m') (operands : Array Value) :
    m.Alike (m'.withOperands operands) := by
  obtain ⟨ip, _, rfl⟩ := h
  exact ⟨_, _, rfl⟩

theorem Alike.drop (h : m.Alike m') (n : Nat) : m.Alike (m'.drop n) := h.withOperands _

theorem Alike.popMany {n : Nat} {vs : List Value} (h : m.Alike m') (hm : m'.popMany? n = some (vs, m'')) :
    m.Alike m'' := by
  unfold Machine.popMany? at hm
  split at hm <;> cases hm
  exact h.drop n

theorem Alike.push (h : m.Alike m') (v : Value) : m.Alike (m'.push v) := h.withOperands _

theorem Alike.goto (h : m.Alike m') (target : Nat) : m.Alike (m'.goto target) := by
  obtain ⟨_, operands, rfl⟩ := h
  exact ⟨_, _, rfl⟩

theorem Alike.shrink (h : m.Alike m') (n : Nat) : m.Alike (m'.shrink n) := h.withOperands _

/-- What a step does to the frames, the handlers and the held failures. -/
inductive Stacks (m : Machine) : Progress → Prop where
  | moved {m' : Machine} (h : m.Alike m') : Stacks m (.running m')
  | called {m' : Machine} (h : m.Alike m') (frame : Frame) (slots : Array Value) :
    Stacks m (.running (m'.calling frame slots))
  | returned {caller : Frame} {callers : List Frame} (h : m.callers = caller :: callers)
    (operands : Array Value) : Stacks m (.running { m with top := caller, callers, operands })
  | finished (m' : Machine) (v : Value) : Stacks m (.finished m' v)
  | failed {m' : Machine} (h : m.Alike m') (f : Fault) : Stacks m (.failed m' f)
  | installed (h : Handler) :
    Stacks m (.running { m.goto (m.top.ip + 1) with handlers := h :: m.handlers })
  | completed {h : Handler} {handlers : List Handler}
    (fetched : m.top.code.code[m.top.ip]? = some .popHandler) (eq : m.handlers = h :: handlers) :
    Stacks m (.running { m.goto (m.top.ip + 1) with handlers })
  | rethrown {f : Fault} {held : List Fault} (fetched : m.top.code.code[m.top.ip]? = some .rethrow)
    (eq : m.held = f :: held) : Stacks m (.failed { m.goto (m.top.ip + 1) with held } f)

variable (same : m.Alike m')
include same

theorem stacks_pushFound (found : Option Value) (d : Defect) : m.Stacks (m'.pushFound found d) := by
  cases found with
  | some v => exact .moved (same.push v)
  | none => exact .failed same _

theorem yields_trying {Q : α → Prop} {x : Eval α} (hx : x.Yields Q) {next : Machine → α → Progress}
    (h : ∀ a, Q a → m.Stacks (next m' a)) : (m'.trying x next).Yields m.Stacks := by
  intro s p t hp
  unfold Machine.trying at hp
  cases hr : Eval.attempt x s with
  | ok r u =>
    rw [Eval.bind_eq_of_ok hr] at hp
    cases r with
    | ok a =>
      cases hp
      exact h a (hx.attempt s _ _ hr a rfl)
    | error f =>
      cases hp
      exact .failed same f
  | error e u =>
    rw [Eval.bind_eq_of_error hr] at hp
    cases hp

theorem yields_pushing (x : Eval Value) : (m'.pushing x).Yields m.Stacks :=
  yields_trying same (.something x) fun v _ => .moved (same.push v)

theorem yields_lending (x : Eval Value) : (m'.lending x).Yields m.Stacks := by
  unfold Machine.lending
  refine .bind fun r => ?_
  split
  · exact .pure (.moved ((same.withOperands _).push _))
  · exact .pure (.failed (same.withOperands _) _)

theorem yields_call (argc site : Nat) : (m'.call natives back argc site).Yields m.Stacks := by
  unfold Machine.call
  split
  · exact .pure (.failed same _)
  · dsimp only
    split
    · refine .bind fun r => ?_
      split
      · exact .pure (.failed same _)
      · exact yields_trying same (.something _) fun r _ => .called (same.drop _) r.1 r.2
      · exact yields_lending (same.drop _) _
      · exact yields_pushing (same.drop _) _
    · exact .pure (.failed same _)

theorem yields_ret : m'.ret.Yields m.Stacks := by
  unfold Machine.ret
  split
  · exact .pure (.failed same _)
  · next v m'' hm =>
    have left : m.Stacks (m''.leave v) := by
      cases hc : m''.callers with
      | nil =>
        rw [leave_of_nil hc]
        exact .finished _ v
      | cons caller callers =>
        rw [leave_of_cons hc]
        obtain ⟨ip, operands, rfl⟩ := same.pop hm
        exact .returned (m := m) hc _
    dsimp only
    split
    · exact .bind fun _ => .pure left
    · exact .pure left

theorem yields_closure (i : Nat) (isMacro : Bool) : (m'.closure i isMacro).Yields m.Stacks := by
  unfold Machine.closure
  split
  · exact .pure (.failed same _)
  · split
    · exact .pure (.failed same _)
    · exact yields_pushing same _

theorem yields_binary (site : Nat) (operation : Value → Value → Except NumericFault Value) :
    (m'.binary site operation).Yields m.Stacks := by
  unfold Machine.binary
  split
  · exact .pure (.failed same _)
  · next hm =>
    have same := same.pop hm
    split
    · exact .pure (.failed same _)
    · next hm =>
      have same := same.pop hm
      split
      · exact .pure (.failed same _)
      · exact yields_pushing same _

theorem yields_build (n : Nat) (make : List Value → Eval Value) : (m'.build n make).Yields m.Stacks := by
  unfold Machine.build
  split
  · next hm => exact yields_pushing (same.popMany hm) _
  · exact .pure (.failed same _)

theorem yields_loadGlobal (i : Nat) : (m'.loadGlobal i).Yields m.Stacks := by
  unfold Machine.loadGlobal
  split
  · refine .bind fun s => ?_
    split
    · exact .pure (.moved (same.push _))
    · exact .pure (.failed same _)
  · exact .pure (.failed same _)
  · exact .pure (.failed same _)

theorem yields_defGlobal (i : Nat) : (m'.defGlobal i).Yields m.Stacks := by
  unfold Machine.defGlobal
  split
  · next hm =>
    have same := same.pop hm
    exact .bind fun _ => .pure (.moved (same.push _))
  · exact .pure (.failed same _)
  · exact .pure (.failed same _)
  · exact .pure (.failed same _)

/-- An instruction that takes a value off first. -/
theorem yields_popping {next : Value → Machine → Eval Progress}
    (h : ∀ v m'', m.Alike m'' → (next v m'').Yields m.Stacks) :
    Eval.Yields (match m'.pop? with
      | some (v, m'') => next v m''
      | none => pure (m'.broken .stackUnderflow)) m.Stacks := by
  cases hm : m'.pop? with
  | none => exact .pure (.failed same _)
  | some popped => exact h _ _ (same.pop hm)

omit same

/-- **What a step can do**: it changes frames, handlers and held failures at the top only. -/
theorem stacks_step : (m.step natives back).Yields m.Stacks := by
  unfold Machine.step
  cases fetched : m.top.code.code[m.top.ip]? with
  | none => exact .pure (.failed (.refl m) _)
  | some i =>
    show (execute natives back (m.goto (m.top.ip + 1)) i).Yields m.Stacks
    have same : m.Alike (m.goto (m.top.ip + 1)) := (Alike.refl m).goto _
    -- Only the first four instructions look at handlers and held failures.
    cases i with
    | pushCatch offset => exact .bind fun s => .pure (.installed _)
    | pushFinally offset => exact .bind fun s => .pure (.installed _)
    | popHandler =>
      simp only [execute]
      split
      · next eq => exact .pure (.completed fetched eq)
      · exact .pure (.failed same _)
    | rethrow =>
      simp only [execute]
      split
      · next eq => exact .pure (.rethrown fetched eq)
      · exact .pure (.failed same _)
    | const i => exact .pure (stacks_pushFound same ..)
    | loadLocal i => exact .pure (stacks_pushFound same ..)
    | loadCapture i => exact .pure (stacks_pushFound same ..)
    | pushNil | pushTrue | pushFalse => exact .pure (.moved (same.push _))
    | truncate n => exact .pure (.moved (same.shrink _))
    | pop => exact yields_popping same fun v m' same => .pure (.moved same)
    | endScope n => exact yields_popping same fun v m' same => .pure (.moved ((same.shrink _).push v))
    | storeLocal i =>
      refine yields_popping same fun v m' same => ?_
      dsimp only
      split
      · exact .pure (.moved (same.withOperands _))
      · exact .pure (.failed same _)
    | popJumpIfFalse offset =>
      refine yields_popping same fun v m' same => .pure (.moved ?_)
      split
      · exact same
      · exact same.goto _
    | loadGlobal i => exact yields_loadGlobal same i
    | defGlobal i => exact yields_defGlobal same i
    | jump offset =>
      simp only [execute]
      split
      · exact .bind fun _ => .pure (.moved (same.goto _))
      · exact .pure (.moved (same.goto _))
    | call argc site => exact .bind fun _ => yields_call same argc site
    | ret => exact yields_ret same
    | raise => exact yields_popping same fun v m' same => yields_trying same (.raiseAt _ _) fun _ => False.elim
    | closure i => exact yields_closure same i false
    | macroClosure i => exact yields_closure same i true
    | arith op site => exact yields_binary same site _
    | compare op site => exact yields_binary same site _
    | buildList n => exact yields_build same n _
    | buildVector n => exact yields_build same n _
    | buildMap n => exact yields_build same n _
    | buildSet n => exact yields_build same n _

/-- What stays of the frames while their code is run. -/
def frames (m : Machine) : List Frame := (m.top :: m.callers).map Frame.fixed

/-- A machine that has failed has the frames and the handlers that it had before. -/
theorem frames_of_failed {p : Progress} (can : m.Stacks p) (hp : p = .failed m' f) :
    m'.callers = m.callers ∧ m'.frames = m.frames ∧ m'.handlers = m.handlers := by
  cases can with
  | failed h =>
    cases hp
    obtain ⟨ip, operands, rfl⟩ := h
    exact ⟨rfl, rfl, rfl⟩
  | rethrown =>
    cases hp
    exact ⟨rfl, rfl, rfl⟩
  | _ => cases hp

theorem held_of_running {p : Progress} (can : m.Stacks p) (hp : p = .running m') : m'.held = m.held := by
  cases can with
  | moved same =>
    cases hp
    obtain ⟨ip, operands, rfl⟩ := same
    rfl
  | called same frame =>
    cases hp
    obtain ⟨ip, operands, rfl⟩ := same
    rfl
  | returned | installed | completed =>
    cases hp
    rfl
  | _ => cases hp

end Machine

end TwinLisp
