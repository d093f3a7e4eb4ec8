import TwinLisp.Proofs.Machine.Unwinding

/-!
# Cleanups of the machine

The code of a cleanup stands behind the code that it cleans up after twice: for when that is through, and
for when it has failed. Which of the two runs is settled by the handler that is installed meanwhile. It is
taken off once: by the end of the guarded code, or by a failure that arrives there. The failure is held
while the cleanup runs, and raised again behind it, unless the cleanup itself fails.

## Main definitions

* `Machine.Turn`: one turn of a run, perhaps to a handler.
* `Machine.While`: a run during which something stays as it is.
* `Machine.Releases`: the turn in which the handler of a cleanup is taken off.
* `Machine.LetsGo`: a turn from which on a failure is not held any more.

## Main statements

* `Machine.Running.cleanup_once`: a cleanup is begun once, in the frame of its `try`.
* `Machine.Running.cleanup_of_run`: it is begun however the run ends, unless the session ends.
* `Machine.Steps.letsGo`: a held failure is raised again as it is, unless another one replaces it.
-/

namespace TwinLisp

variable {P : Policy} {exact : Prop} {base : Nat} {under : Array Value} {s t u : Session}
variable {ls : List Level} {L : Level} {m m' m'' : Machine} {natives : NativeRunner} {back : Caller}
variable {h : Handler} {f g : Fault}
variable {outer : List Handler} {older : List Fault}

namespace Machine

/-! ### Frames during a run -/

/-- The frames of the first machine are those of the second, but for some on top. -/
structure Beneath (m m' : Machine) : Prop where
  callers : m.callers <:+ m'.callers
  frames : m.frames <:+ m'.frames

theorem Beneath.refl (m : Machine) : m.Beneath m := ⟨List.suffix_rfl, List.suffix_rfl⟩

/-- A machine goes on for one turn, perhaps at a handler. -/
inductive Turn (natives : NativeRunner) (back : Caller) (s : Session) (m : Machine) :
    Session → Machine → Prop where
  | step {t : Session} {m' : Machine} (now : m.step natives back s = .ok (.running m') t) :
    Turn natives back s m t m'
  | handled {t u : Session} {failed m' : Machine} {f : Fault}
    (now : m.step natives back s = .ok (.failed failed f) t) (unwound : failed.unwind f t = .ok m' u) :
    Turn natives back s m u m'

theorem Steps.turn (run : m.Steps natives back s t m') (turn : m'.Turn natives back t u m'') :
    m.Steps natives back s u m'' := by
  cases turn with
  | step now => exact .step run now
  | handled now unwound => exact .handled run now unwound

/-- **A turn changes frames at the top only.** -/
theorem Turn.beneath (turn : m.Turn natives back s t m') : m.Beneath m' ∨ m'.Beneath m := by
  cases turn with
  | step now =>
    cases stacks_step s _ t now with
    | moved h =>
      obtain ⟨ip, operands, rfl⟩ := h
      exact .inl ⟨List.suffix_rfl, List.suffix_rfl⟩
    | called h frame slots =>
      obtain ⟨ip, operands, rfl⟩ := h
      exact .inl ⟨List.suffix_cons .., List.suffix_cons ..⟩
    | @returned caller callers h operands =>
      have frames : (caller :: callers).map Frame.fixed <:+ m.frames := h ▸ List.suffix_cons ..
      exact .inr ⟨h ▸ List.suffix_cons .., frames⟩
    | installed h => exact .inl ⟨List.suffix_rfl, List.suffix_rfl⟩
    | completed fetched eq => exact .inl ⟨List.suffix_rfl, List.suffix_rfl⟩
  | @handled _ _ failed _ f now unwound =>
    obtain ⟨callers, frames, -⟩ := frames_of_failed (stacks_step s _ _ now) rfl
    obtain ⟨h, outer, resumes⟩ := exists_of_unwind unwound
    refine .inr ⟨?_, ?_⟩
    · rw [resumes.callers, ← callers]
      exact callers_dropFrames_suffix ..
    · rw [← frames]
      show (m'.top :: m'.callers).map Frame.fixed <:+ _
      rw [List.map_cons, resumes.top, resumes.callers, ← List.map_cons]
      exact (dropFrames_suffix ..).map Frame.fixed

/-- Frames that a turn does not get down to stay. -/
theorem Beneath.turn (h : m.Beneath m') (turn : m'.Beneath m'' ∨ m''.Beneath m')
    (le : m.callers.length ≤ m''.callers.length) : m.Beneath m'' := by
  rcases turn with above | below
  · exact ⟨h.callers.trans above.callers, h.frames.trans above.frames⟩
  · refine ⟨List.suffix_of_suffix_length_le h.callers below.callers le, ?_⟩
    refine List.suffix_of_suffix_length_le h.frames below.frames ?_
    simpa [Machine.frames] using le

/-- Where the frames are as many, they are the same. -/
theorem Beneath.eq (h : m.Beneath m') (le : m'.callers.length ≤ m.callers.length) :
    m'.callers = m.callers ∧ m'.top.fixed = m.top.fixed := by
  have callers := h.callers.eq_of_length_le le
  have frames := h.frames.eq_of_length_le (by simpa [Machine.frames] using le)
  exact ⟨callers.symm, (List.cons.inj frames).1.symm⟩

/-! ### Parts of runs -/

/-- A run of which all machines satisfy `Q`. -/
inductive While (natives : NativeRunner) (back : Caller) (Q : Machine → Prop) (s : Session) (m : Machine) :
    Session → Machine → Prop where
  | start (now : Q m) : While natives back Q s m s m
  | turn {t u : Session} {m' m'' : Machine} (before : While natives back Q s m t m')
    (turn : m'.Turn natives back t u m'') (now : Q m'') : While natives back Q s m u m''

namespace While

variable {Q : Machine → Prop}

theorem last (h : m.While natives back Q s t m') : Q m' := by
  cases h with
  | start now => exact now
  | turn _ _ now => exact now

theorem steps (h : m.While natives back Q s t m') : m.Steps natives back s t m' := by
  induction h with
  | start => exact .refl
  | turn _ turn _ ih => exact ih.turn turn

end While

/-- A run of which all machines satisfy `Q` up to some turn, and the one after that turn does not. -/
def Leaves (natives : NativeRunner) (back : Caller) (Q : Machine → Prop) (s : Session) (m : Machine)
    (t : Session) (m' : Machine) : Prop :=
  ∃ s₁ m₁ s₂ m₂, m.While natives back Q s s₁ m₁ ∧ m₁.Turn natives back s₁ s₂ m₂ ∧ ¬ Q m₂ ∧
    m₂.Steps natives back s₂ t m'

/-- What holds at first holds to the end of a run, or up to some turn. -/
theorem Steps.while_or_leaves (run : m.Steps natives back s t m') {Q : Machine → Prop} (start : Q m) :
    m.While natives back Q s t m' ∨ m.Leaves natives back Q s t m' := by
  have extend {t u : Session} {m' m'' : Machine} (turn : m'.Turn natives back t u m'')
      (h : m.While natives back Q s t m' ∨ m.Leaves natives back Q s t m') :
      m.While natives back Q s u m'' ∨ m.Leaves natives back Q s u m'' := by
    rcases h with h | ⟨s₁, m₁, s₂, m₂, before, now, fails, rest⟩
    · by_cases now : Q m''
      · exact .inl (h.turn turn now)
      · exact .inr ⟨_, _, _, _, h, turn, now, .refl⟩
    · exact .inr ⟨s₁, m₁, s₂, m₂, before, now, fails, rest.turn turn⟩
  induction run with
  | refl => exact .inl (.start start)
  | step _ now ih => exact extend (.step now) ih
  | handled _ now unwound ih => exact extend (.handled now unwound) ih

/-! ### Cleanups are begun once -/

/-- The turn in which the handler of a cleanup is taken off, in the call and the frame of its `try`. -/
inductive Releases (natives : NativeRunner) (back : Caller) (exact : Prop) (h : Handler)
    (outer : List Handler) (s : Session) (m : Machine) : Session → Machine → Prop where
  /-- The guarded code is through. -/
  | completed (fetched : m.top.code.code[m.top.ip]? = some .popHandler) (eq : m.handlers = h :: outer)
    (callDepth : s.callDepth = h.callDepth) (callers : m.callers.length = h.callers) :
    Releases natives back exact h outer s m s { m.goto (m.top.ip + 1) with handlers := outer }
  /-- The guarded code has failed. The failure is held, and the machine goes on at the cleanup. -/
  | failed {t u : Session} {failed m' : Machine} {f : Fault} {l : Location} {older : List Fault}
    (now : m.step natives back s = .ok (.failed failed f) t) (ordinary : f.isFatal = false)
    (handlers : m'.handlers = outer) (callDepth : u.callDepth = h.callDepth)
    (callers : m'.callers.length = h.callers) (target : m'.top.ip = h.target)
    (operands : exact → m'.operands.size = h.operands) (held : m'.held = f.orAt l :: older)
    (length : older.length = h.held) (suffix : older <:+ failed.held) :
    Releases natives back exact h outer s m u m'

theorem Releases.callers_eq (hr : m.Releases natives back exact h outer s t m') :
    m'.callers.length = h.callers := by
  cases hr with
  | completed _ _ _ callers => exact callers
  | failed _ _ _ _ callers => exact callers

theorem step_popHandler (fetched : m.top.code.code[m.top.ip]? = some .popHandler)
    (eq : m.handlers = h :: outer) : m.step natives back s =
      .ok (.running { m.goto (m.top.ip + 1) with handlers := outer }) s := by
  have eq : (m.goto (m.top.ip + 1)).handlers = h :: outer := eq
  unfold Machine.step
  rw [fetched]
  simp only [execute, eq]
  rfl

/-- The handler that is taken off by the end of the guarded code belongs to the running call. -/
theorem Running.own_of_popHandler (hm : m.Running P exact base under s ls L)
    (fetched : m.top.code.code[m.top.ip]? = some .popHandler) (eq : m.handlers = h :: outer) :
    s.callDepth = h.callDepth ∧ m.callers.length = h.callers := by
  obtain ⟨hs, _, _, _, waiting, runs, installed, handlers, -, depth⟩ := hm.around.split
  obtain ⟨shape, rest, shapes, -⟩ := (runs.typed.flows hm.level fetched).leadsTo
  rw [shapes] at installed
  cases installed with
  | cons tail kind frame operands heldAt calls resume =>
    rw [eq, List.cons_append] at handlers
    obtain ⟨rfl, -⟩ := List.cons.inj handlers
    exact ⟨depth.trans calls.symm, frame.symm⟩

section

variable (hP : P.Runs exact) (hn : natives.Obedient P) (hb : back.Obedient P)
include hP hn hb

/-- A turn takes the handler of a cleanup off, or leaves it installed. -/
theorem Running.releases (hs : s.Sound P) (hm : m.Running P exact base under s ls L)
    (kind : h.kind = .cleanup) (hh : h :: outer <:+ m.handlers) (turn : m.Turn natives back s t m')
    (gone : ¬ h :: outer <:+ m'.handlers) : m.Releases natives back exact h outer s t m' := by
  cases turn with
  | step now =>
    cases stacks_step s _ t now with
    | moved same =>
      obtain ⟨ip, operands, rfl⟩ := same
      exact absurd hh gone
    | called same frame slots =>
      obtain ⟨ip, operands, rfl⟩ := same
      exact absurd hh gone
    | returned => exact absurd hh gone
    | installed k => exact absurd (hh.trans (List.suffix_cons ..)) gone
    | completed fetched eq =>
      rw [eq] at hh
      rcases List.suffix_cons_iff.1 hh with e | still
      · obtain ⟨rfl, rfl⟩ := List.cons.inj e
        rw [step_popHandler fetched eq] at now
        cases now
        obtain ⟨callDepth, callers⟩ := hm.own_of_popHandler fetched eq
        exact .completed fetched eq callDepth callers
      · exact absurd still gone
  | @handled _ _ failed _ f now unwound =>
    obtain ⟨-, -, handlers⟩ := frames_of_failed (stacks_step s _ _ now) rfl
    obtain ⟨k, rest, resumes⟩ := exists_of_unwind unwound
    rw [← handlers, resumes.handlers] at hh
    -- The failure takes the innermost handler off. This is `h`, or `h` is further out and stays.
    rcases List.suffix_cons_iff.1 hh with e | still
    · obtain ⟨rfl, rfl⟩ := List.cons.inj e
      have next := hm.step hP hs hn hb
      rw [now] at next
      obtain ⟨⟨_, _, _, failing⟩, -⟩ := next.2
      obtain ⟨callers, length, operands⟩ := failing.place resumes.handlers f
      obtain ⟨top, left, held, callDepth⟩ := resumes.cleanup kind
      obtain ⟨l, blamed⟩ := fault_dropFrames h.callers failed.top f failed.callers
      have held : m'.held = f.orAt l :: (failed.atHandler h f).1.held := by
        rw [held, ← blamed]
        rfl
      refine .failed now resumes.ordinary resumes.rest callDepth (resumes.callers ▸ callers) ?_
        (fun e => ?_) held length (List.drop_suffix ..)
      · rw [top]
        rfl
      · rw [left]
        exact operands e
    · exact absurd (resumes.rest ▸ still) gone

/-- While a handler is installed, the frame that it belongs to stays, and those beneath. -/
theorem While.beneath (hs : s.Sound P) (hm : m.Running P exact base under s ls L)
    (ho : exact → s.operands = under) (own : h.callers = m.callers.length)
    (run : m.While natives back (h :: outer <:+ ·.handlers) s t m') : m.Beneath m' := by
  induction run with
  | start => exact .refl m
  | @turn _ _ _ m'' before turn now ih =>
    -- Every handler belongs to a frame that is still there, so the turn has not got beneath that of `h`.
    refine ih.turn turn.beneath ?_
    obtain ⟨-, _, _, running⟩ := hm.steps hP hn hb hs ho (before.steps.turn turn)
    rw [← own]
    exact running.around.callers_le h (now.subset (List.mem_cons_self ..))

/-- **A cleanup is begun once**: when a run has come out of the code that a cleanup guards, there was one turn
in which the handler was taken off. The frames were those in which it was installed. -/
theorem Running.cleanup_once (hs : s.Sound P) (hm : m.Running P exact base under s ls L)
    (ho : exact → s.operands = under) (hh : m.handlers = h :: outer) (kind : h.kind = .cleanup)
    (own : h.callers = m.callers.length)
    (run : m.Steps natives back s t m') (out : m'.handlers.length ≤ outer.length) :
    ∃ s₁ m₁ s₂ m₂, m.While natives back (h :: outer <:+ ·.handlers) s s₁ m₁ ∧
      m₁.Releases natives back exact h outer s₁ s₂ m₂ ∧ m₂.Steps natives back s₂ t m' ∧
      m₂.callers = m.callers ∧ m₂.top.fixed = m.top.fixed := by
  rcases run.while_or_leaves (Q := (h :: outer <:+ ·.handlers)) (hh ▸ List.suffix_rfl) with
    inside | ⟨s₁, m₁, s₂, m₂, before, turn, gone, rest⟩
  · have := inside.last.length_le
    simp only [List.length_cons] at this
    omega
  · obtain ⟨drifts, _, _, running⟩ := hm.steps hP hn hb hs ho before.steps
    have releases := running.releases hP hn hb (hs.evolves drifts.evolves) kind before.last turn gone
    have beneath := before.beneath hP hn hb hs hm ho own
    have callers : m₂.callers.length = m.callers.length := releases.callers_eq.trans own
    have frames := (beneath.turn turn.beneath callers.ge).eq callers.le
    exact ⟨s₁, m₁, s₂, m₂, before, releases, rest, frames⟩

end

/-! ### Held failures are raised again -/

/-- A failure `g` that was held is let go: it is raised again, or another failure goes to a handler that was
installed before it was held. -/
inductive LetsGo (natives : NativeRunner) (back : Caller) (g : Fault) (older : List Fault) (s : Session)
    (m : Machine) : Prop where
  | raised (fetched : m.top.code.code[m.top.ip]? = some .rethrow) (eq : m.held = g :: older)
  | replaced {t : Session} {failed : Machine} {f : Fault} {h : Handler} {outer : List Handler}
    (now : m.step natives back s = .ok (.failed failed f) t) (ordinary : f.isFatal = false)
    (handlers : failed.handlers = h :: outer) (before : h.held ≤ older.length)

/-- A failure that goes to a handler takes the failures along that were held since that was installed. -/
theorem Resumes.letsGo (resumes : m.Resumes f h outer m' t) (hg : g :: older <:+ m.held)
    (gone : ¬ g :: older <:+ m'.held) : h.held ≤ older.length := by
  by_contra later
  -- The failure `g` was held when the handler was installed, so it is not dropped there.
  have dropped : (m.atHandler h f).1.held = m.held.drop (m.held.length - h.held) := rfl
  have length := hg.length_le
  have kept : g :: older <:+ (m.atHandler h f).1.held := by
    refine List.suffix_of_suffix_length_le hg (dropped ▸ List.drop_suffix ..) ?_
    rw [dropped, List.length_drop]
    simp only [List.length_cons] at length ⊢
    omega
  rcases resumes.held with held | ⟨-, held⟩
  · exact gone (held ▸ kept)
  · exact gone (held ▸ kept.trans (List.suffix_cons ..))

/-- A turn lets a held failure go, or goes on holding it. -/
theorem Turn.letsGo (turn : m.Turn natives back s t m') (hg : g :: older <:+ m.held)
    (gone : ¬ g :: older <:+ m'.held) : m.LetsGo natives back g older s := by
  cases turn with
  | step now =>
    rw [held_of_running (stacks_step s _ t now) rfl] at gone
    exact absurd hg gone
  | @handled _ _ failed _ f now unwound =>
    obtain ⟨h, outer, resumes⟩ := exists_of_unwind unwound
    cases stacks_step s _ _ now with
    | failed same =>
      obtain ⟨ip, operands, rfl⟩ := same
      exact .replaced now resumes.ordinary resumes.handlers (resumes.letsGo hg gone)
    | rethrown fetched eq =>
      rw [eq] at hg
      rcases List.suffix_cons_iff.1 hg with e | still
      · exact .raised fetched (eq.trans e.symm)
      · exact .replaced now resumes.ordinary resumes.handlers (resumes.letsGo still gone)

/-- **A held failure is raised again as it is**, unless another one replaces it. -/
theorem Steps.letsGo (hg : m.held = g :: older) (run : m.Steps natives back s t m')
    (out : m'.held.length ≤ older.length) : ∃ s₁ m₁ s₂ m₂,
      m.While natives back (g :: older <:+ ·.held) s s₁ m₁ ∧ m₁.LetsGo natives back g older s₁ ∧
      m₁.Turn natives back s₁ s₂ m₂ ∧ m₂.Steps natives back s₂ t m' := by
  rcases run.while_or_leaves (Q := (g :: older <:+ ·.held)) (hg ▸ List.suffix_rfl) with
    inside | ⟨s₁, m₁, s₂, m₂, before, turn, gone, rest⟩
  · have := inside.last.length_le
    simp only [List.length_cons] at this
    omega
  · exact ⟨s₁, m₁, s₂, m₂, before, turn.letsGo before.last gone, turn, rest⟩

/-! ### Ends of runs -/

theorem Steps.trans (run : m.Steps natives back s t m') (rest : m'.Steps natives back t u m'') :
    m.Steps natives back s u m'' := by
  induction rest with
  | refl => exact run
  | step _ now ih => exact .step ih now
  | handled _ now unwound ih => exact .handled ih now unwound

/-- What the last step of a run comes to. -/
inductive Halts (natives : NativeRunner) (back : Caller) (s : Session) (m : Machine) :
    EStateM.Result Stop Session Value → Prop where
  | finished {m' : Machine} {v : Value} {t : Session}
    (now : m.step natives back s = .ok (.finished m' v) t) :
    Halts natives back s m (.ok v { t with operands := m'.operands })
  | stopped {e : Stop} {t : Session} (now : m.step natives back s = .error e t) :
    Halts natives back s m (.error e t)
  | left {failed : Machine} {f : Fault} {e : Stop} {t u : Session}
    (now : m.step natives back s = .ok (.failed failed f) t) (unwound : failed.unwind f t = .error e u) :
    Halts natives back s m (.error e u)

/-- A run goes on until it halts, if there is enough fuel. -/
theorem run_halts (fuel : Nat) : (∃ u, m.run natives back fuel s = .error .outOfFuel u) ∨
    ∃ t m', m.Steps natives back s t m' ∧ m'.Halts natives back t (m.run natives back fuel s) := by
  induction fuel generalizing s m with
  | zero => exact .inl ⟨s, rfl⟩
  | succ fuel ih =>
    have before {t : Session} {m' : Machine} (first : m.Steps natives back s t m')
        (h : m.run natives back (fuel + 1) s = m'.run natives back fuel t) :
        (∃ u, m.run natives back (fuel + 1) s = .error .outOfFuel u) ∨
          ∃ t m', m.Steps natives back s t m' ∧
            m'.Halts natives back t (m.run natives back (fuel + 1) s) := by
      rw [h]
      rcases ih (s := t) (m := m') with out | ⟨u, m'', rest, halts⟩
      · exact .inl out
      · exact .inr ⟨u, m'', first.trans rest, halts⟩
    cases now : m.step natives back s with
    | error e t =>
      have stops : m.run natives back (fuel + 1) s = .error e t := by
        unfold Machine.run
        exact Eval.bind_eq_of_error now
      exact .inr ⟨s, m, .refl, stops ▸ .stopped now⟩
    | ok p t =>
      cases p with
      | running m' =>
        refine before (.step .refl now) ?_
        conv => lhs; unfold Machine.run
        exact Eval.bind_eq_of_ok now
      | finished left v =>
        have ends : m.run natives back (fuel + 1) s = .ok v { t with operands := left.operands } := by
          unfold Machine.run
          exact Eval.bind_eq_of_ok now
        exact .inr ⟨s, m, .refl, ends ▸ .finished now⟩
      | failed failed f =>
        cases unwound : failed.unwind f t with
        | error e u =>
          have stops : m.run natives back (fuel + 1) s = .error e u := by
            unfold Machine.run
            rw [Eval.bind_eq_of_ok now]
            exact Eval.bind_eq_of_error unwound
          exact .inr ⟨s, m, .refl, stops ▸ .left now unwound⟩
        | ok m' u =>
          refine before (.handled .refl now unwound) ?_
          conv => lhs; unfold Machine.run
          rw [Eval.bind_eq_of_ok now]
          exact Eval.bind_eq_of_ok unwound

/-- The result of a run is a value or a failure that does not end the session. -/
def IsOrdinary : EStateM.Result Stop Session Value → Prop
  | .ok _ _ => True
  | .error (.fault f) _ => f.isFatal = false
  | .error .outOfFuel _ => False

section

variable (hP : P.Runs exact) (hn : natives.Obedient P) (hb : back.Obedient P)
include hP hn hb

/-- No handler is left installed where a run ends. -/
theorem Running.handlers_of_halts (hs : s.Sound P) (hm : m.Running P exact base under s ls L)
    {r : EStateM.Result Stop Session Value} (halts : m.Halts natives back s r) (ordinary : IsOrdinary r) :
    m.handlers = [] := by
  have next := hm.step hP hs hn hb
  cases halts with
  | finished now =>
    rw [now] at next
    exact next.2.2.1
  | @stopped e _ now =>
    cases e with
    | fault f =>
      rw [now] at next
      exact next.2.elim
    | outOfFuel => exact ordinary.elim
  | @left _ f e _ _ now unwound =>
    cases e with
    | fault g =>
      obtain ⟨-, -, handlers⟩ := frames_of_failed (stacks_step s _ _ now) rfl
      rw [← handlers]
      exact handlers_of_unwind_error unwound ordinary
    | outOfFuel => exact ordinary.elim

/-- **However a run ends**, with a value or a failure that does not end the session, each cleanup whose handler
was installed has been begun, in the frame of its `try` and with those beneath. -/
theorem Running.cleanup_of_run (hs : s.Sound P) (hm : m.Running P exact base under s ls L)
    (ho : exact → s.operands = under) (hh : m.handlers = h :: outer) (kind : h.kind = .cleanup)
    (own : h.callers = m.callers.length)
    {fuel : Nat} (ordinary : IsOrdinary (m.run natives back fuel s)) : ∃ s₁ m₁ s₂ m₂,
      m.While natives back (h :: outer <:+ ·.handlers) s s₁ m₁ ∧
      m₁.Releases natives back exact h outer s₁ s₂ m₂ ∧
      m₂.callers = m.callers ∧ m₂.top.fixed = m.top.fixed := by
  rcases run_halts fuel with ⟨u, out⟩ | ⟨t, m', run, halts⟩
  · rw [out] at ordinary
    exact ordinary.elim
  · obtain ⟨drifts, _, _, running⟩ := hm.steps hP hn hb hs ho run
    have empty := running.handlers_of_halts hP hn hb (hs.evolves drifts.evolves) halts ordinary
    obtain ⟨s₁, m₁, s₂, m₂, before, releases, -, frames⟩ :=
      hm.cleanup_once hP hn hb hs ho hh kind own run (by simp [empty])
    exact ⟨s₁, m₁, s₂, m₂, before, releases, frames⟩

end

end Machine

end TwinLisp
