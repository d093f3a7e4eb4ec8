import TwinLisp.Proofs.Conduct.Expansion
import TwinLisp.Proofs.Expansion.Expanded
import TwinLisp.Library.Reflection

/-!
# Expanding on request

The evaluator expands a form as long as it is a macro call, and the built-in function `macroexpand` does so on request.
Both take one step after the other and end where the form is no macro call any more. They differ at the limit: the
evaluator refuses a form that is still a macro call there, while the function gives it out as it is.

## Main definitions

* `Eval.refusingCalls`: refuse a form that is still a macro call.

## Main statements

* `Eval.expandHead_eq`: the evaluator takes the steps of `macroexpand` and refuses what is left to do.
* `Library.macroexpand_of_expandHead_ok`, `Library.macroexpand_of_expandHead_error`: what `macroexpand` does in terms of
  what the evaluator does.
-/

namespace TwinLisp

/-! ### Limits -/

namespace Session

variable {P : Policy} {s t : Session}

theorem Change.limits_eq (h : Change P s t) : t.limits = s.limits := by cases h <;> rfl

/-- No change touches the limits. -/
theorem Evolves.limits_eq (h : Evolves P s t) : t.limits = s.limits := by
  induction h with
  | refl => rfl
  | tail _ change ih => exact change.limits_eq.trans ih

/-- The session with collection forbidden once more. -/
def held (s : Session) : Session := { s with inhibited := s.inhibited + 1 }

/-- The session with collection forbidden once less. -/
def released (s : Session) : Session := { s with inhibited := s.inhibited - 1 }

theorem released_held (s : Session) : s.held.released = s := rfl

theorem held_released (h : 0 < s.inhibited) : s.released.held = s := by
  have back : s.inhibited - 1 + 1 = s.inhibited := Nat.sub_add_cancel h
  change { s with inhibited := s.inhibited - 1 + 1 } = s
  rw [back]

theorem Sound.held (h : s.Sound P) : s.held.Sound P := h.change (.inhibit _ fun _ => Nat.succ_pos _)

/-- What a computation with collection forbidden leads to is sound when collection is allowed again. -/
theorem Leads.sound_released (h : s.held.Leads P t) (hs : s.Sound P) : t.released.Sound P := by
  refine (h.sound hs.held).change (.inhibit _ fun quiet => ?_)
  have free : 0 < s.inhibited := hs.inhibited quiet
  have counted : t.inhibited = s.inhibited + 1 := h.inhibited
  omega

theorem Leads.held_released (h : s.held.Leads P t) : t.released.held = t := by
  have counted : t.inhibited = s.inhibited + 1 := h.inhibited
  exact Session.held_released (by omega)

end Session

namespace Eval

variable {α : Type} {call : Caller} {name : String} {v : Value} {f : Form} {s : Session}

/-! ### One step -/

/-- Refuse a form that is still a macro call. -/
def refusingCalls (f : Form) : Eval Form := do
  match ← macroCalled? ⟨f.location, []⟩ f with
  | some (name, _) => fail ((Fault.of (.expansionTooDeep name (← get).limits.macroDepth)).located f.location)
  | none => return f

/-- Collection is forbidden once more for a computation, and once less after it. -/
theorem withoutCollection_run (x : Eval α) (s : Session) : withoutCollection x s =
    always Session.released x s.held := rfl

/-- What an expansion yields depends on where it is placed, but not on how many more are granted. -/
theorem expandCall_congr {p q : ExpansionPlace} (same : f.location.orElse p.cursor = f.location.orElse q.cursor)
    (m n : Nat) : expandCall call (m + 1) p name v f = expandCall call (n + 1) q name v f := by
  simp [expandCall, same]

section

variable (h : f.macroCall? s.macro? [] = none)
include h

theorem macroCalled?_of_none (cursor : Location) : macroCalled? ⟨cursor, []⟩ f s = .ok none s := by
  rw [macroCalled?_eq, h]

theorem expandHeadAt_of_none (n : Nat) (cursor : Location) : expandHeadAt call n cursor f s = .ok f s := by
  cases n <;> exact bind_eq_of_ok (macroCalled?_of_none h cursor)

theorem refusingCalls_of_none : refusingCalls f s = .ok f s := bind_eq_of_ok (macroCalled?_of_none h _)

theorem expandOnce_of_none : expandOnce call f s = .ok none s := by
  have looked : f.macroCall? s.held.macro? [] = none := h
  rw [expandOnce, withoutCollection_run]
  have read : always Session.released (pure none : Eval (Option Form)) s.held = .ok none s := rfl
  exact (always_congr (bind_eq_of_ok (macroCalled?_of_none looked _))).trans read

end

section

variable (h : f.macroCall? s.macro? [] = some (name, v))
include h

theorem macroCalled?_of_some (cursor : Location) : macroCalled? ⟨cursor, []⟩ f s = .ok (some (name, v)) s := by
  rw [macroCalled?_eq, h]

/-- A macro call is refused when no step is left. -/
theorem expandHeadAt_zero (cursor : Location) : expandHeadAt call 0 cursor f s = .error (.fault
    ((Fault.of (.expansionTooDeep name s.limits.macroDepth)).located (f.location.orElse cursor))) s :=
  bind_eq_of_ok (macroCalled?_of_some h cursor)

theorem expandHeadAt_succ (n : Nat) (cursor : Location) : expandHeadAt call (n + 1) cursor f s =
    (expandCall call (n + 1) ⟨cursor, []⟩ name v f >>= fun g =>
      expandHeadAt call n (g.location.orElse cursor) g) s :=
  bind_eq_of_ok (macroCalled?_of_some h cursor)

theorem refusingCalls_of_some : refusingCalls f s =
    .error (.fault ((Fault.of (.expansionTooDeep name s.limits.macroDepth)).located f.location)) s :=
  bind_eq_of_ok (macroCalled?_of_some h _)

/-- A single expansion is that of the macro called, with collection forbidden meanwhile. -/
theorem expandOnce_of_some : expandOnce call f s = always Session.released
    (expandCall call s.limits.macroDepth ⟨f.location, []⟩ name v f >>= fun g => pure (some g)) s.held := by
  have looked : f.macroCall? s.held.macro? [] = some (name, v) := h
  rw [expandOnce, withoutCollection_run]
  exact always_congr (bind_eq_of_ok (macroCalled?_of_some looked _))

end

/-! ### All steps -/

open Library (expandTimes)

theorem expandTimes_of_none (h : f.macroCall? s.macro? [] = none) (n : Nat) :
    expandTimes call n f s = .ok (f, false) s := by
  cases n with
  | zero => rfl
  | succ n => exact bind_eq_of_ok (expandOnce_of_none h)

section

variable {t : Session} (h : f.macroCall? s.macro? [] = some (name, v))
include h

theorem expandTimes_of_error {e : Stop}
    (stepped : expandCall call s.limits.macroDepth ⟨f.location, []⟩ name v f s.held = .error e t) (n : Nat) :
    expandTimes call (n + 1) f s = .error e t.released := by
  have once : expandOnce call f s = .error e t.released :=
    (expandOnce_of_some h).trans (always_of_error (bind_eq_of_error stepped))
  exact bind_eq_of_error once

theorem expandTimes_of_ok {g : Form}
    (stepped : expandCall call s.limits.macroDepth ⟨f.location, []⟩ name v f s.held = .ok g t) (n : Nat) :
    expandTimes call (n + 1) f s = (expandTimes call n g >>= fun r => pure (r.1, true)) t.released := by
  have once : expandOnce call f s = .ok (some g) t.released :=
    (expandOnce_of_some h).trans (always_congr (bind_eq_of_ok stepped))
  exact bind_eq_of_ok once

end

/-! ### The evaluator's steps -/

/-- One of the steps granted is the same as one on request. -/
theorem expandCall_granted {n : Nat} {cursor : Location} (same : f.location.orElse cursor = f.location)
    (granted : n + 1 ≤ s.limits.macroDepth) : expandCall call (n + 1) ⟨cursor, []⟩ name v f =
      expandCall call s.limits.macroDepth ⟨f.location, []⟩ name v f := by
  obtain ⟨depth, deep⟩ : ∃ depth, s.limits.macroDepth = depth + 1 := ⟨s.limits.macroDepth - 1, by omega⟩
  rw [deep]
  exact expandCall_congr (same.trans (Location.orElse_self _).symm) n depth

theorem withoutCollection_expandHeadAt_of_none (h : f.macroCall? s.macro? [] = none) (n : Nat) (cursor : Location) :
    withoutCollection (expandHeadAt call n cursor f) s = .ok f s := by
  have there : f.macroCall? s.held.macro? [] = none := h
  rw [withoutCollection_run, always_of_ok (expandHeadAt_of_none there n cursor), Session.released_held]

section

variable {n : Nat} {cursor : Location} {t : Session} (h : f.macroCall? s.macro? [] = some (name, v))
  (same : f.location.orElse cursor = f.location)
include h same

theorem withoutCollection_expandHeadAt_zero :
    withoutCollection (expandHeadAt call 0 cursor f) s = refusingCalls f s := by
  have there : f.macroCall? s.held.macro? [] = some (name, v) := h
  rw [withoutCollection_run, always_of_error (expandHeadAt_zero there cursor), refusingCalls_of_some h, same]
  rfl

variable (granted : n + 1 ≤ s.limits.macroDepth)
include granted

theorem withoutCollection_expandHeadAt_of_error {e : Stop}
    (stepped : expandCall call s.limits.macroDepth ⟨f.location, []⟩ name v f s.held = .error e t) :
    withoutCollection (expandHeadAt call (n + 1) cursor f) s = .error e t.released := by
  have there : f.macroCall? s.held.macro? [] = some (name, v) := h
  rw [withoutCollection_run, always_congr (expandHeadAt_succ there n cursor), expandCall_granted same granted]
  exact always_of_error (bind_eq_of_error stepped)

theorem withoutCollection_expandHeadAt_of_ok {g : Form} (held : t.released.held = t)
    (stepped : expandCall call s.limits.macroDepth ⟨f.location, []⟩ name v f s.held = .ok g t) :
    withoutCollection (expandHeadAt call (n + 1) cursor f) s =
      withoutCollection (expandHeadAt call n (g.location.orElse cursor) g) t.released := by
  have there : f.macroCall? s.held.macro? [] = some (name, v) := h
  rw [withoutCollection_run, always_congr (expandHeadAt_succ there n cursor), expandCall_granted same granted,
    withoutCollection_run, held]
  exact always_congr (bind_eq_of_ok stepped)

end

variable {P : Policy}

/-- With so many steps granted, the evaluator takes the steps that are taken on request, and then refuses a form that
is still a macro call. -/
theorem withoutCollection_expandHeadAt (hc : call.Obedient P) {n : Nat} {cursor : Location} (hs : s.Sound P)
    (same : f.location.orElse cursor = f.location) (granted : n ≤ s.limits.macroDepth) :
    withoutCollection (expandHeadAt call n cursor f) s =
      (expandTimes call n f >>= fun r => refusingCalls r.1) s := by
  induction n generalizing cursor f s with
  | zero =>
    change _ = refusingCalls f s
    cases looked : f.macroCall? s.macro? [] with
    | none => rw [withoutCollection_expandHeadAt_of_none looked, refusingCalls_of_none looked]
    | some found => exact withoutCollection_expandHeadAt_zero looked same
  | succ n ih =>
    cases looked : f.macroCall? s.macro? [] with
    | none =>
      rw [withoutCollection_expandHeadAt_of_none looked, bind_eq_of_ok (expandTimes_of_none looked _),
        refusingCalls_of_none looked]
    | some found =>
      obtain ⟨name, v⟩ := found
      have ends := Obeys.expandCall_placed hc s.limits.macroDepth ⟨f.location, []⟩ name v f s.held hs.held
      cases stepped : expandCall call s.limits.macroDepth ⟨f.location, []⟩ name v f s.held with
      | error e t =>
        rw [withoutCollection_expandHeadAt_of_error looked same granted stepped,
          bind_eq_of_error (expandTimes_of_error looked stepped n)]
      | ok g t =>
        rw [stepped] at ends
        obtain ⟨leads, placed⟩ := ends
        rw [Location.orElse_self] at placed
        -- The evaluator's own place for what is left does not count: the expansion has the location of the call.
        have again : g.location.orElse (g.location.orElse cursor) = g.location := by
          rw [← Location.orElse_assoc, Location.orElse_self, ← placed, Location.orElse_assoc, same]
        have limits : t.released.limits = s.limits := leads.evolves.limits_eq
        calc withoutCollection (expandHeadAt call (n + 1) cursor f) s
            = withoutCollection (expandHeadAt call n (g.location.orElse cursor) g) t.released :=
              withoutCollection_expandHeadAt_of_ok looked same granted leads.held_released stepped
          _ = (expandTimes call n g >>= fun r => refusingCalls r.1) t.released :=
              ih (leads.sound_released hs) again (by rw [limits]; omega)
          _ = ((expandTimes call n g >>= fun r => pure (r.1, true)) >>= fun r => refusingCalls r.1) t.released := by
              rw [bind_assoc]
              rfl
          _ = (expandTimes call (n + 1) f >>= fun r => refusingCalls r.1) s :=
              (bind_congr_run _ (expandTimes_of_ok looked stepped n)).symm

/-- The evaluator takes the steps that are taken on request, as many as the limit grants, and refuses what is left to
do. -/
theorem expandHead_eq (hc : call.Obedient P) (hs : s.Sound P) (f : Form) :
    expandHead call f s = (expandTimes call s.limits.macroDepth f >>= fun r => refusingCalls r.1) s :=
  withoutCollection_expandHeadAt hc hs (Location.orElse_self _) le_rfl

end Eval

/-! ### On request -/

namespace Library

variable {P : Policy} {call : Caller} {f g : Form} {v : Value} {s t u : Session} {e : Stop}

/-- A form that was not expanded is given back as it was. -/
theorem eq_of_expandTimes_false {n : Nat} (h : expandTimes call n f s = .ok (g, false) t) : g = f := by
  have same {u : Session} (h : (pure (f, false) : Eval (Form × Bool)) u = .ok (g, false) t) : g = f := by
    cases h
    rfl
  cases n with
  | zero => exact same h
  | succ n =>
    obtain ⟨expansion?, u, -, rest⟩ := Eval.of_bind_eq_ok h
    cases expansion? with
    | none => exact same rest
    | some expansion =>
      obtain ⟨_, _, -, last⟩ := Eval.of_bind_eq_ok rest
      cases last

/-- What `macroexpand` answers once the steps are taken: the value of the form they end in, or the value it was given
when there was no step to take. -/
def Gives (call : Caller) (v : Value) (f g : Form) (s t : Session) : Prop :=
  macroexpand call [v] s = Eval.valueOfForm g t ∨ g = f ∧ macroexpand call [v] s = .ok v t

section

variable (read : Eval.formOfValue v s = .ok f t)
include read

theorem gives_of_expandTimes {b : Bool} (h : expandTimes call t.limits.macroDepth f t = .ok (g, b) u) :
    Gives call v f g s u := by
  have run : macroexpand call [v] s =
      (if b then Eval.valueOfForm g else pure v : Eval Value) u := by
    rw [macroexpand, Eval.bind_eq_of_ok read, Eval.get_bind, Eval.bind_eq_of_ok h]
  cases b with
  | true => exact .inl run
  | false => exact .inr ⟨eq_of_expandTimes_false h, run⟩

variable (hc : call.Obedient P) (sound : t.Sound P)
include hc sound

/-- Where the evaluator succeeds in expanding a form, `macroexpand` gives out the form the evaluator goes on with. -/
theorem macroexpand_of_expandHead_ok (h : Eval.expandHead call f t = .ok g u) : Gives call v f g s u := by
  rw [Eval.expandHead_eq hc sound] at h
  obtain ⟨⟨last, b⟩, w, taken, kept⟩ := Eval.of_bind_eq_ok h
  cases looked : last.macroCall? w.macro? [] with
  | none =>
    cases (Eval.refusingCalls_of_none looked).symm.trans kept
    exact gives_of_expandTimes read taken
  | some found => cases (Eval.refusingCalls_of_some looked).symm.trans kept

/-- Where the evaluator fails in expanding a form, `macroexpand` fails in the same way, unless it was the limit that
made the evaluator fail: then it gives out a form that is still a macro call. -/
theorem macroexpand_of_expandHead_error (h : Eval.expandHead call f t = .error e u) :
    macroexpand call [v] s = .error e u ∨ ∃ g name m, g.macroCall? u.macro? [] = some (name, m) ∧
      e = .fault ((Fault.of (.expansionTooDeep name u.limits.macroDepth)).located g.location) ∧
      Gives call v f g s u := by
  rw [Eval.expandHead_eq hc sound] at h
  cases taken : expandTimes call t.limits.macroDepth f t with
  | error e' w =>
    cases (Eval.bind_eq_of_error taken).symm.trans h
    refine .inl ?_
    rw [macroexpand, Eval.bind_eq_of_ok read, Eval.get_bind, Eval.bind_eq_of_error taken]
  | ok r w =>
    obtain ⟨last, b⟩ := r
    have refused : Eval.refusingCalls last w = .error e u := (Eval.bind_eq_of_ok taken).symm.trans h
    cases looked : last.macroCall? w.macro? [] with
    | none => cases (Eval.refusingCalls_of_none looked).symm.trans refused
    | some found =>
      cases (Eval.refusingCalls_of_some looked).symm.trans refused
      exact .inr ⟨last, found.1, found.2, looked, rfl, gives_of_expandTimes read taken⟩

end

end Library

end TwinLisp
