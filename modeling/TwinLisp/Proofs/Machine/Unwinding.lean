import TwinLisp.Proofs.Machine.Run
import TwinLisp.Proofs.Machine.Stacks

/-!
# Where failures go

A failure that does not end the session goes on at the innermost handler, in the frame that the handler belongs
to and at its height. It leaves the machine only if there is no handler. A handler that catches makes a value of
the failure, which does not fail but for ends of the session.

## Main definitions

* `Eval.FailsFatally`: a computation whose failures end the session.
* `Machine.Resumes`: a failure goes on at a handler.

## Main statements

* `Eval.FailsFatally.caught`: nothing but a full heap keeps a failure from being caught.
* `Machine.unwinds`: a failure goes on at the innermost handler, or leaves the machine.
* `Machine.Failing.place`: a failure finds the place of the handler as it was.
-/

namespace TwinLisp

variable {α β : Type} {P : Policy} {exact : Prop} {base : Nat} {under : Array Value} {s t : Session}
variable {ls : List Level} {m m' : Machine} {f g : Fault} {h : Handler} {outer : List Handler}

/-! ### Failures that cannot be caught -/

theorem Eval.eq_error_of_attempt {x : Eval α} (h : Eval.attempt x s = .ok (.error f) t) :
    x s = .error (.fault f) t := by
  unfold Eval.attempt at h
  cases hr : x s with
  | ok a u =>
    rw [hr] at h
    cases h
  | error e u =>
    rw [hr] at h
    cases e <;> cases h
    rfl

theorem Eval.eq_outOfFuel_of_attempt {x : Eval α} {e : Stop} (h : Eval.attempt x s = .error e t) :
    e = .outOfFuel := by
  unfold Eval.attempt at h
  split at h <;> cases h
  rfl

/-- The computation fails only in ways that end the session. -/
def Eval.FailsFatally (x : Eval α) : Prop :=
  ∀ s f t, x s = .error (.fault f) t → f.isFatal = true

namespace Eval.FailsFatally

variable {Q : α → Prop}

theorem pure (a : α) : FailsFatally (Pure.pure a) := by
  rintro s f t ⟨⟩

theorem bind {x : Eval α} {y : α → Eval β} (hx : FailsFatally x) (hq : Yields x Q)
    (hy : ∀ a, Q a → FailsFatally (y a)) : FailsFatally (x >>= y) := by
  intro s f t h
  cases hr : x s with
  | ok a u =>
    rw [Eval.bind_eq_of_ok hr] at h
    exact hy a (hq s a u hr) u f t h
  | error e u =>
    rw [Eval.bind_eq_of_error hr] at h
    cases h
    exact hx s f t hr

theorem alloc (o : Object) : FailsFatally (Eval.alloc o) := by
  refine bind (Q := fun _ => True) ?_ (.something _) fun _ _ => ?_
  · intro s f t h
    change (if s.terminated = true then Eval.failWith .terminated else Pure.pure PUnit.unit : Eval PUnit)
      s = _ at h
    split at h <;> cases h
    rfl
  · intro s f t h
    dsimp only at h
    split at h <;> cases h
    rfl

theorem new (o : Object) : FailsFatally (Eval.new o) :=
  bind (alloc o) (.something _) fun _ _ => pure _

/-- Nothing but a full heap keeps a value from being caught. -/
theorem caught (f : Fault) : FailsFatally (Eval.caught f) := by
  have keyword (name : String) : FailsFatally (Eval.keyword name) := by
    rintro s f t ⟨⟩
  have isKeyword (name : String) : Yields (Eval.keyword name) fun v => ∃ x, v = .keyword x := by
    rintro s v t ⟨⟩
    exact ⟨_, rfl⟩
  have keyOf (x : Symbol) : FailsFatally (Eval.keyOf (.keyword x)) := by
    rintro s f t ⟨⟩
  unfold Eval.caught
  split
  · exact pure _
  · refine bind (keyword _) (isKeyword _) fun typeKey hk => ?_
    obtain ⟨x, rfl⟩ := hk
    refine bind (keyword _) (.something _) fun type _ => ?_
    refine bind (keyword _) (isKeyword _) fun messageKey hl => ?_
    obtain ⟨y, rfl⟩ := hl
    refine bind (new _) (.something _) fun message _ => ?_
    refine bind (bind (bind (keyOf x) (.something _) fun _ _ => pure _) (.something _) fun _ _ => ?_)
      (.something _) fun _ _ => new _
    exact bind (bind (keyOf y) (.something _) fun _ _ => pure _) (.something _) fun _ _ => pure _

end Eval.FailsFatally

/-! ### The innermost handler -/

namespace Machine

/-- A failure that does not end the session goes on at the handler `h`. -/
structure Resumes (m : Machine) (f : Fault) (h : Handler) (outer : List Handler) (m' : Machine)
    (t : Session) : Prop where
  ordinary : f.isFatal = false
  handlers : m.handlers = h :: outer
  rest : m'.handlers = outer
  callers : m'.callers = (m.atHandler h f).1.callers
  top : m'.top.fixed = (m.atHandler h f).1.top.fixed
  /-- A handler that catches drops failures, and one that cleans up holds one more. -/
  held : m'.held = (m.atHandler h f).1.held ∨
    h.kind = .cleanup ∧ m'.held = (m.atHandler h f).2 :: (m.atHandler h f).1.held
  cleanup : h.kind = .cleanup → m'.top = (m.atHandler h f).1.top ∧
    m'.operands = (m.atHandler h f).1.operands ∧ m'.held = (m.atHandler h f).2 :: (m.atHandler h f).1.held ∧
    t.callDepth = h.callDepth

/-- What a failure `f` comes to that is handed to the handlers. -/
inductive Unwinds (m : Machine) (f : Fault) : EStateM.Result Stop Session Machine → Prop where
  | resumed {h : Handler} {outer : List Handler} {m' : Machine} {t : Session}
    (resumes : m.Resumes f h outer m' t) : Unwinds m f (.ok m' t)
  | left {g : Fault} {t : Session} (handlers : g.isFatal = false → m.handlers = []) :
    Unwinds m f (.error (.fault g) t)
  | exhausted {t : Session} : Unwinds m f (.error .outOfFuel t)

theorem unwinds_of_fatal (hf : f.isFatal = true) (hs : List Handler) (m' : Machine) (s : Session) :
    m.Unwinds g (unwindTo hs m' f s) := by
  obtain ⟨k, t, fatal, -, left⟩ := unwindTo_fatal hs m' hf s
  rw [left]
  exact .left fun ordinary => by cases fatal.symm.trans ordinary

/-- **A failure goes on at the innermost handler**, unless it ends the session. If there is none, it leaves the
machine. -/
theorem unwinds (m : Machine) (f : Fault) (s : Session) : m.Unwinds f (m.unwind f s) := by
  unfold Machine.unwind
  cases hf : f.isFatal with
  | true => exact unwinds_of_fatal hf ..
  | false =>
    cases hh : m.handlers with
    | nil =>
      unfold unwindTo quit
      cases leaves : leaveFrames f (m.top :: m.callers) s with
      | ok k t =>
        rw [Eval.bind_eq_of_ok leaves]
        exact .left fun _ => hh
      | error e t =>
        rw [Eval.bind_eq_of_error leaves]
        cases e with
        | fault k => exact .left fun _ => hh
        | outOfFuel => exact .exhausted
    | cons h outer =>
      have set : Eval.setCallDepth h.callDepth s = .ok () { s with callDepth := h.callDepth } := rfl
      unfold unwindTo
      rw [hf, if_neg Bool.false_ne_true]
      dsimp only
      rw [Eval.bind_eq_of_ok set]
      cases hk : h.kind with
      | cleanup => exact .resumed ⟨hf, hh, rfl, rfl, rfl, .inr ⟨hk, rfl⟩, fun _ => ⟨rfl, rfl, rfl, rfl⟩⟩
      | catching =>
        dsimp only
        generalize { s with callDepth := h.callDepth } = u
        cases hc : Eval.attempt (Eval.caught (m.atHandler h f).2) u with
        | error e v =>
          rw [Eval.bind_eq_of_error hc, Eval.eq_outOfFuel_of_attempt hc]
          exact .exhausted
        | ok r v =>
          rw [Eval.bind_eq_of_ok hc]
          cases r with
          | ok w => exact .resumed ⟨hf, hh, rfl, rfl, rfl, .inl rfl, fun e => by cases hk.symm.trans e⟩
          | error k =>
            -- The value could not be made, and that ends the session.
            have fatal := Eval.FailsFatally.caught _ u k v (Eval.eq_error_of_attempt hc)
            exact unwinds_of_fatal fatal ..

theorem exists_of_unwind (hu : m.unwind f s = .ok m' t) : ∃ h outer, m.Resumes f h outer m' t := by
  cases hu ▸ m.unwinds f s with
  | resumed resumes => exact ⟨_, _, resumes⟩

theorem handlers_of_unwind_error (hu : m.unwind f s = .error (.fault g) t) (hg : g.isFatal = false) :
    m.handlers = [] := by
  cases hu ▸ m.unwinds f s with
  | left handlers => exact handlers hg

/-! ### The frames at a handler -/

theorem dropFrames_suffix (n : Nat) (top : Frame) (f : Fault) (callers : List Frame) :
    (dropFrames n top f callers).1 :: (dropFrames n top f callers).2.1 <:+ top :: callers := by
  induction callers generalizing top f with
  | nil => exact List.suffix_rfl
  | cons caller callers ih =>
    unfold dropFrames
    split
    · exact List.suffix_rfl
    · exact (ih caller (f.orAt top.site)).trans (List.suffix_cons ..)

theorem callers_dropFrames_suffix (n : Nat) (top : Frame) (f : Fault) (callers : List Frame) :
    (dropFrames n top f callers).2.1 <:+ callers := by
  rcases List.suffix_cons_iff.1 (dropFrames_suffix n top f callers) with e | h
  · rw [(List.cons.inj e).2]
  · exact (List.suffix_cons ..).trans h

theorem length_callers_dropFrames {n : Nat} (top : Frame) (f : Fault) {callers : List Frame}
    (h : n ≤ callers.length) : (dropFrames n top f callers).2.1.length = n := by
  induction callers generalizing top f with
  | nil => exact (Nat.le_zero.1 h).symm
  | cons caller callers ih =>
    unfold dropFrames
    split
    · next few => exact Nat.le_antisymm few h
    · next many => exact ih caller (f.orAt top.site) (Nat.not_lt.1 many)

/-- On the way to a handler a failure is blamed on a call, unless it was blamed on something before. -/
theorem fault_dropFrames (n : Nat) (top : Frame) (f : Fault) (callers : List Frame) :
    ∃ l, (dropFrames n top f callers).2.2 = f.orAt l := by
  have none : f = f.orAt .unknown := by simp [Fault.orAt]
  induction callers generalizing top f with
  | nil => exact ⟨_, none⟩
  | cons caller callers ih =>
    unfold dropFrames
    split
    · exact ⟨_, none⟩
    · obtain ⟨l, e⟩ := ih caller (f.orAt top.site) (by simp [Fault.orAt])
      exact ⟨_, e.trans (Fault.orAt_orAt ..)⟩

end Machine

/-- Every handler belongs to a frame. -/
theorem Around.callers_le {guarded : Symbol → Option Native} {shapes : List HandlerShape} {n : Nat}
    {top : Frame} {callers : List Frame} {handlers : List Handler} {held depth : Nat}
    (ha : Around guarded exact base under ls shapes n top callers handlers held depth) :
    ∀ k ∈ handlers, k.callers ≤ callers.length := by
  obtain ⟨waiting, runs, installed⟩ := ha
  intro k hk
  rcases List.mem_append.1 hk with hk | hk
  · exact Nat.le_of_eq (installed.callers_eq k hk)
  · exact Nat.le_of_lt (waiting.callers_lt k hk)

/-- A failure finds the place of the handler as it was. -/
theorem Machine.Failing.place {shapes : List HandlerShape} {n : Nat}
    (hm : m.Failing P exact base under s ls shapes n) (hh : m.handlers = h :: outer) (f : Fault) :
    (m.atHandler h f).1.callers.length = h.callers ∧ (m.atHandler h f).1.held.length = h.held ∧
      (exact → (m.atHandler h f).1.operands.size = h.operands) := by
  have around := hm.around
  rw [hh] at around
  have callers := around.callers_le h (List.mem_cons_self ..)
  obtain ⟨_, _, _, -, finds, held, -⟩ := around.dropFrames hm.backs f
  refine ⟨length_callers_dropFrames _ _ callers, ?_, fun e => ?_⟩
  · show (m.held.drop (m.held.length - h.held)).length = h.held
    rw [List.length_drop]
    omega
  · have height := finds.height e
    rw [← finds.operands e] at height
    show (m.operands.shrink h.operands).size = h.operands
    rw [Array.size_shrink]
    exact Nat.min_eq_left height

end TwinLisp
