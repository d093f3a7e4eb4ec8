import TwinLisp.Special.Check

/-!
# What a checked form is like

Checking says more than that nothing was found wrong: every special form has its shape, and its parts
passed in turn. Here this is said once, in terms of the parts, for all that go over checked forms.

## Main definitions

* `Form.Accepted`: a form passes the check at a place with the given target of `recur`.
* `SpecialForm.Accepts` is what that means for each special form.
* `Form.Recurs`: evaluating a form may end in a `recur` with so many values, which stands in it outside of
  any loop, function or `try`.

## Main statements

* `Form.Accepted.special`: the parts of an accepted special form are accepted.
* `accepted_of_check`: what `check` lets pass is accepted.
* `Form.Accepted.recurs`: a `recur` in an accepted form has a target that takes its values.
-/

namespace TwinLisp

theorem Form.special?_list (head : Form) (args : List Form) (l : Location) :
    (Form.group .list (head :: args) l).special? = head.symbolName?.bind SpecialForm.ofName? := by
  cases head with
  | leaf d _ => cases d <;> rfl
  | group b items _ => rfl

/-! ### Acceptance -/

/-- A way to tell which forms pass, with a given target of `recur`, as the last thing to do or not. -/
abbrev Acceptance := Option RecurTarget → Bool → Form → Prop

/-- The forms of a body pass, the last one in the place of the body itself. -/
def Acceptance.Body (ok : Acceptance) (target : Option RecurTarget) (isLast : Bool) :
    List Form → Prop
  | [] => True
  | [f] => ok target isLast f
  | f :: fs => ok target false f ∧ ok.Body target isLast fs

/-- The bodies of a function pass, each with its parameters as target. -/
def Acceptance.Overloads (ok : Acceptance) (overloads : List OverloadShape) : Prop :=
  ∀ o ∈ overloads, ok.Body (some ⟨o.names.length, o.rest.isSome⟩) true o.body

/-- The special form `f` has its shape, and its parts pass. -/
def SpecialForm.Accepts (ok : Acceptance) (target : Option RecurTarget) (isLast : Bool) :
    SpecialForm → Form → Prop
  | .quote, f => ∃ quoted, f.items.drop 1 = [quoted]
  | .conditional, f => ∃ test yes rest, f.items.drop 1 = test :: yes :: rest ∧ rest.length ≤ 1 ∧
      ok target false test ∧ ∀ g ∈ yes :: rest, ok target isLast g
  | .sequence, f => ok.Body target isLast (f.items.drop 1)
  | .letBinding, f => ∃ bindings, Shape.bindings "let" f = .ok bindings ∧
      (∀ b ∈ bindings, ok target false b.2) ∧ ok.Body target isLast (Shape.bindingBody f)
  | .loop, f => ∃ bindings, Shape.bindings "loop" f = .ok bindings ∧
      (∀ b ∈ bindings, ok target false b.2) ∧
      ok.Body (some ⟨bindings.length, false⟩) true (Shape.bindingBody f)
  | .function, f => ∃ shape, Shape.function f = .ok shape ∧ ok.Overloads shape.overloads
  | .macroDefinition, f => ∃ shape, Shape.macroDefinition f = .ok shape ∧ ok.Overloads shape.2
  | .definition, f => ∃ name value, Shape.definition f = .ok (name, value) ∧
      CoreOp.ofName? name = none ∧ ∀ g, value = some g → ok target false g
  | .recur, f => isLast = true ∧ (∃ t, target = some t ∧ (f.items.drop 1).length = t.slots) ∧
      ∀ g ∈ f.items.drop 1, ok target false g
  | .raise, f => ∃ value, f.items.drop 1 = [value] ∧ ok target false value
  | .attempt, f => ∃ shape, Shape.attempt f = .ok shape ∧ (∀ g ∈ shape.body, ok none false g) ∧
      (∀ h ∈ shape.handlers, ∀ g ∈ h.2, ok none false g) ∧
      ∀ forms, shape.cleanup = some forms → ∀ g ∈ forms, ok none false g
  | .template, _ => False
  | .handler, _ => False
  | .cleanup, _ => False

/-- A form passes the check, with so many levels left. -/
def Form.AcceptedWithin : Nat → Acceptance
  | 0 => fun _ _ _ => False
  | depth + 1 => fun target isLast f =>
    match f.special? with
    | some kind => kind.Accepts (AcceptedWithin depth) target isLast f
    | none => ∀ g ∈ f.items, AcceptedWithin depth target false g

/-- A form passes the check, however many levels that takes. -/
def Form.Accepted : Acceptance := fun target isLast f =>
  ∃ depth, Form.AcceptedWithin depth target isLast f

namespace Acceptance

variable {ok ok' : Acceptance} {target : Option RecurTarget} {isLast : Bool}

theorem Body.imp (himp : ∀ {t l f}, ok t l f → ok' t l f) :
    {fs : List Form} → ok.Body target isLast fs → ok'.Body target isLast fs
  | [], _ => trivial
  | [_], h => himp (show ok target isLast _ from h)
  | _ :: _ :: _, h => ⟨himp h.1, Body.imp himp h.2⟩

theorem Body.cons {f : Form} {fs : List Form} (hs : fs ≠ []) (h : ok.Body target isLast (f :: fs)) :
    ok target false f ∧ ok.Body target isLast fs := by
  cases fs with
  | nil => exact absurd rfl hs
  | cons g gs => exact h

/-- In a body that nothing depends on, all forms pass alike. -/
theorem Body.of_forall : {fs : List Form} → (∀ f ∈ fs, ok target false f) → ok.Body target false fs
  | [], _ => trivial
  | [f], h => h f List.mem_cons_self
  | f :: _ :: _, h => ⟨h f List.mem_cons_self, Body.of_forall fun g hg => h g (List.mem_cons_of_mem f hg)⟩

theorem Body.getLast {f : Form} : {fs : List Form} → ok.Body target isLast fs → fs.getLast? = some f →
    ok target isLast f
  | [_], h, hf => by
    cases hf
    exact h
  | _ :: g :: gs, h, hf =>
    Body.getLast (show ok.Body target isLast (g :: gs) from h.2) (by rwa [List.getLast?_cons_cons] at hf)

end Acceptance

theorem SpecialForm.Accepts.imp {ok ok' : Acceptance} (himp : ∀ {t l f}, ok t l f → ok' t l f)
    {target : Option RecurTarget} {isLast : Bool} {kind : SpecialForm} {f : Form}
    (h : kind.Accepts ok target isLast f) : kind.Accepts ok' target isLast f := by
  cases kind with
  | quote => exact h
  | conditional =>
    obtain ⟨test, yes, rest, hi, hr, ht, hg⟩ := h
    exact ⟨test, yes, rest, hi, hr, himp ht, fun g hm => himp (hg g hm)⟩
  | sequence => exact Acceptance.Body.imp himp h
  | letBinding =>
    obtain ⟨bindings, hb, hv, body⟩ := h
    exact ⟨bindings, hb, fun b hm => himp (hv b hm), body.imp himp⟩
  | loop =>
    obtain ⟨bindings, hb, hv, body⟩ := h
    exact ⟨bindings, hb, fun b hm => himp (hv b hm), body.imp himp⟩
  | function =>
    obtain ⟨shape, hs, bodies⟩ := h
    exact ⟨shape, hs, fun o hm => (bodies o hm).imp himp⟩
  | macroDefinition =>
    obtain ⟨shape, hs, bodies⟩ := h
    exact ⟨shape, hs, fun o hm => (bodies o hm).imp himp⟩
  | definition =>
    obtain ⟨name, value, hs, core, hv⟩ := h
    exact ⟨name, value, hs, core, fun g hg => himp (hv g hg)⟩
  | recur => exact ⟨h.1, h.2.1, fun g hm => himp (h.2.2 g hm)⟩
  | raise =>
    obtain ⟨value, hi, hv⟩ := h
    exact ⟨value, hi, himp hv⟩
  | attempt =>
    obtain ⟨shape, hs, body, handlers, cleanup⟩ := h
    exact ⟨shape, hs, fun g hm => himp (body g hm), fun c hc g hm => himp (handlers c hc g hm),
      fun forms hf g hm => himp (cleanup forms hf g hm)⟩
  | template => exact h
  | handler => exact h
  | cleanup => exact h

namespace Form

namespace Accepted

variable {target : Option RecurTarget} {isLast : Bool} {f : Form}

/-- **The parts of an accepted special form are accepted.** -/
theorem special {kind : SpecialForm} (h : f.special? = some kind) (hf : Accepted target isLast f) :
    kind.Accepts Accepted target isLast f := by
  obtain ⟨depth, hd⟩ := hf
  cases depth with
  | zero => exact hd.elim
  | succ depth =>
    rw [AcceptedWithin, h] at hd
    exact SpecialForm.Accepts.imp (fun ha => ⟨depth, ha⟩) hd

/-- The parts of any other form are accepted. -/
theorem items (h : f.special? = none) (hf : Accepted target isLast f) :
    ∀ g ∈ f.items, Accepted target false g := by
  obtain ⟨depth, hd⟩ := hf
  cases depth with
  | zero => exact hd.elim
  | succ depth =>
    rw [AcceptedWithin, h] at hd
    exact fun g hm => ⟨depth, hd g hm⟩

end Accepted

end Form

/-! ### What passes the check -/

theorem ok_of_bind {ε α β : Type} {x : Except ε α} {k : α → Except ε β} {b : β}
    (h : (x >>= k) = .ok b) : ∃ a, x = .ok a ∧ k a = .ok b := by
  cases x with
  | ok a => exact ⟨a, rfl, h⟩
  | error e => cases h

theorem ok_of_forM {ε α : Type} {k : α → Except ε PUnit} {xs : List α} (h : xs.forM k = .ok ()) :
    ∀ x ∈ xs, k x = .ok () := by
  induction xs with
  | nil => simp
  | cons x xs ih =>
    obtain ⟨⟨⟩, hx, hxs⟩ := ok_of_bind (k := fun _ => xs.forM k) h
    exact List.forall_mem_cons.2 ⟨hx, ih hxs⟩

section

variable {checkOne : Location → Option RecurTarget → Bool → Form → Except Fault Unit} {ok : Acceptance}
variable (hone : ∀ l t b f, checkOne l t b f = .ok () → ok t b f)
include hone

theorem body_of_checkBody {l : Location} {target : Option RecurTarget} {isLast : Bool} :
    {fs : List Form} → checkBody (checkOne l target) isLast fs = .ok () → ok.Body target isLast fs
  | [], _ => trivial
  | [_], h => hone _ _ _ _ h
  | _ :: _ :: _, h => by
    obtain ⟨⟨⟩, hf, hfs⟩ := ok_of_bind h
    exact ⟨hone _ _ _ _ hf, body_of_checkBody hfs⟩

theorem accepts_of_checkSpecial {cursor : Location} {target : Option RecurTarget} {isLast : Bool}
    {kind : SpecialForm} {f : Form} (h : checkSpecial checkOne cursor target isLast kind f = .ok ()) :
    kind.Accepts ok target isLast f := by
  have parts {l : Location} {t : Option RecurTarget} {fs : List Form}
      (h : fs.forM (checkOne l t false) = .ok ()) : ∀ g ∈ fs, ok t false g :=
    fun g hm => hone _ _ _ _ (ok_of_forM h g hm)
  have values {bindings : List Binding}
      (h : (bindings.forM fun b => checkOne cursor target false b.2) = .ok ()) :
      ∀ b ∈ bindings, ok target false b.2 := fun b hm => hone _ _ _ _ (ok_of_forM h b hm)
  have functions {overloads : List OverloadShape}
      (h : (overloads.forM fun o => checkBody (checkOne (o.location.orElse cursor)
        (some ⟨o.names.length, o.rest.isSome⟩)) true o.body) = .ok ()) : ok.Overloads overloads :=
    fun o hm => body_of_checkBody hone (ok_of_forM h o hm)
  unfold checkSpecial at h
  cases kind with
  | quote =>
    dsimp only at h
    split at h
    · cases h
    · next hn => exact List.length_eq_one_iff.1 (by simpa using hn)
  | template => cases h
  | handler => cases h
  | cleanup => cases h
  | conditional =>
    dsimp only at h
    split at h
    · next test branches hi =>
      split at h
      · cases h
      · next hn =>
        obtain ⟨⟨⟩, ht, hb⟩ := ok_of_bind h
        cases branches with
        | nil => simp at hn
        | cons yes rest =>
          refine ⟨test, yes, rest, hi, ?_, hone _ _ _ _ ht, fun g hm => hone _ _ _ _ (ok_of_forM hb g hm)⟩
          simp at hn
          omega
    · cases h
  | sequence => exact body_of_checkBody hone h
  | letBinding =>
    obtain ⟨bindings, hb, h⟩ := ok_of_bind h
    obtain ⟨⟨⟩, hv, body⟩ := ok_of_bind h
    exact ⟨bindings, hb, values hv, body_of_checkBody hone body⟩
  | loop =>
    obtain ⟨bindings, hb, h⟩ := ok_of_bind h
    obtain ⟨⟨⟩, hv, body⟩ := ok_of_bind h
    exact ⟨bindings, hb, values hv, body_of_checkBody hone body⟩
  | function =>
    obtain ⟨shape, hs, h⟩ := ok_of_bind h
    exact ⟨shape, hs, functions h⟩
  | macroDefinition =>
    obtain ⟨shape, hs, h⟩ := ok_of_bind h
    exact ⟨shape, hs, functions h⟩
  | definition =>
    obtain ⟨⟨name, value⟩, hs, h⟩ := ok_of_bind h
    dsimp only at h
    split at h
    · cases h
    · next core =>
      refine ⟨name, value, hs, by simpa using core, fun g hg => ?_⟩
      subst hg
      exact parts h g (by simp)
  | recur =>
    obtain ⟨⟨⟩, hr, hp⟩ := ok_of_bind h
    unfold checkRecur at hr
    split at hr
    · cases hr
    · next t =>
      split at hr
      · cases hr
      · next last =>
        split at hr
        · cases hr
        · next count => exact ⟨by simpa using last, ⟨t, rfl, by simpa using count⟩, parts hp⟩
  | raise =>
    dsimp only at h
    split at h
    · next value hi => exact ⟨value, hi, hone _ _ _ _ h⟩
    · cases h
  | attempt =>
    obtain ⟨shape, hs, h⟩ := ok_of_bind h
    obtain ⟨⟨⟩, body, h⟩ := ok_of_bind h
    obtain ⟨⟨⟩, handlers, cleanup⟩ := ok_of_bind h
    refine ⟨shape, hs, parts body, fun c hc => parts (ok_of_forM handlers c hc), fun forms hf => ?_⟩
    rw [hf] at cleanup
    exact parts cleanup

end

theorem accepted_of_checkForm {limit depth : Nat} {cursor : Location} {target : Option RecurTarget}
    {isLast : Bool} {f : Form} (h : checkForm limit depth cursor target isLast f = .ok ()) :
    f.Accepted target isLast := by
  suffices ∀ depth cursor target isLast f, checkForm limit depth cursor target isLast f = .ok () →
      Form.AcceptedWithin depth target isLast f from ⟨depth, this _ _ _ _ _ h⟩
  intro depth
  induction depth with
  | zero => exact fun _ _ _ _ h => by cases h
  | succ depth ih =>
    intro cursor target isLast f h
    rw [Form.AcceptedWithin]
    simp only [checkForm] at h
    split at h
    · next kind hk =>
      rw [hk]
      exact accepts_of_checkSpecial (fun _ _ _ _ h => ih _ _ _ _ h) h
    · next hk =>
      rw [hk]
      exact fun g hm => ih _ _ _ _ (ok_of_forM h g hm)

/-- **What passes the check is accepted.** -/
theorem accepted_of_check {limit : Nat} {f : Form} (h : check limit f = .ok ()) :
    f.Accepted none false := accepted_of_checkForm h

/-! ### Where a `recur` stands -/

/-- Evaluating the form may end in a `recur` with `n` values. The `recur` stands in the form with nothing
left to do after it, and not inside of a loop, a function or a `try` that is part of the form. -/
inductive Form.Recurs : Form → Nat → Prop where
  | here {f : Form} (h : f.special? = some .recur) : Recurs f (f.items.drop 1).length
  | branch {f test g : Form} {branches : List Form} {n : Nat} (h : f.special? = some .conditional)
      (hi : f.items.drop 1 = test :: branches) (hg : g ∈ branches) (hr : Recurs g n) : Recurs f n
  | last {f g : Form} {n : Nat} (h : f.special? = some .sequence)
      (hg : (f.items.drop 1).getLast? = some g) (hr : Recurs g n) : Recurs f n
  | body {f g : Form} {n : Nat} (h : f.special? = some .letBinding)
      (hg : (Shape.bindingBody f).getLast? = some g) (hr : Recurs g n) : Recurs f n

/-- **A `recur` in an accepted form has a target**, which takes as many values as it gives. -/
theorem Form.Accepted.recurs {target : Option RecurTarget} {isLast : Bool} {f : Form} {n : Nat}
    (h : f.Recurs n) (hf : f.Accepted target isLast) :
    isLast = true ∧ ∃ t, target = some t ∧ n = t.slots := by
  induction h with
  | here hk =>
    obtain ⟨last, count, -⟩ := hf.special hk
    exact ⟨last, count⟩
  | branch hk hi hg _ ih =>
    obtain ⟨test, yes, rest, hi', -, -, branches⟩ := hf.special hk
    rw [hi] at hi'
    cases hi'
    exact ih (branches _ hg)
  | last hk hg _ ih =>
    have body : Acceptance.Body _ _ _ _ := hf.special hk
    exact ih (body.getLast hg)
  | body hk hg _ ih =>
    obtain ⟨bindings, -, -, body⟩ := hf.special hk
    exact ih (body.getLast hg)

end TwinLisp
