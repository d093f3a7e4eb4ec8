import TwinLisp.Proofs.Conduct.Change
import TwinLisp.Session.Raised

/-!
# Computations that obey a policy

A computation obeys a policy if in every sound session it makes only changes, has all counters back in
place at the end, and fails only in the ways that the policy allows. One that runs out of fuel has made
permitted changes up to there.

## Main definitions

* `Obeys`: a computation obeys a policy, and its result has a property.

## Main statements

* `Obeys.bind`, `Obeys.always` and their like: what is put together of obedient computations is obedient.
* One lemma for each primitive computation on a session.
-/

namespace TwinLisp

variable {P : Policy} {α β γ : Type} {Q : α → Prop} {R : β → Prop}

/-- The computation ended well: after permitted changes, with a result that satisfies `Q` or in a
permitted failure. -/
def Ends (P : Policy) (s : Session) (Q : α → Prop) : EStateM.Result Stop Session α → Prop
  | .ok a t => s.Leads P t ∧ Q a
  | .error (.fault f) t => s.Leads P t ∧ P.mayFail f.cause
  | .error .outOfFuel t => s.Strays P t

/-- The computation ends well in every sound session. -/
def Obeys (P : Policy) (x : Eval α) (Q : α → Prop) : Prop := ∀ s, s.Sound P → Ends P s Q (x s)

/-- A result that satisfies `Q`, or a permitted failure. -/
inductive Permitted (P : Policy) (Q : α → Prop) : Except Fault α → Prop where
  | ok {a : α} (h : Q a) : Permitted P Q (.ok a)
  | error {f : Fault} (h : P.mayFail f.cause) : Permitted P Q (.error f)

/-! ### Faults -/

@[simp] theorem Fault.cause_orAt (l : Location) (f : Fault) : (f.orAt l).cause = f.cause := by
  unfold Fault.orAt
  split <;> rfl

@[simp] theorem Fault.cause_located (l : Location) (f : Fault) : (f.located l).cause = f.cause := by
  unfold Fault.located
  split <;> rfl

namespace Ends

variable {s t : Session}

theorem ok {a : α} (h : s.Leads P t) (ha : Q a) : Ends P s Q (.ok a t) := ⟨h, ha⟩

theorem fault {f : Fault} (h : s.Leads P t) (hf : P.mayFail f.cause) :
    Ends P s Q (.error (.fault f) t) := ⟨h, hf⟩

theorem imp {Q' : α → Prop} {r : EStateM.Result Stop Session α} (h : Ends P s Q r)
    (hQ : ∀ a, Q a → Q' a) : Ends P s Q' r := by
  cases r with
  | ok a t => exact ⟨h.1, hQ a h.2⟩
  | error e t =>
    cases e with
    | fault f => exact h
    | outOfFuel => exact h

/-- The same seen from an earlier session. -/
theorem after {u : Session} {r : EStateM.Result Stop Session α} (hu : u.Leads P s) (h : Ends P s Q r) :
    Ends P u Q r := by
  cases r with
  | ok a t => exact ⟨hu.trans h.1, h.2⟩
  | error e t =>
    cases e with
    | fault f => exact ⟨hu.trans h.1, h.2⟩
    | outOfFuel => exact Session.Strays.after hu.evolves h

/-- A computation in a session that differs in its counters, which are put back afterwards. -/
theorem always {x : Eval α} {after : Session → Session} (there : Session.Evolves P s t)
    (h : Ends P t Q (x t)) (still : ∀ u : Session, u.Coincides (after u))
    (back : ∀ u, t.Leads P u → s.Leads P (after u)) : Ends P s Q (Eval.always after x t) := by
  unfold Eval.always
  generalize x t = r at h ⊢
  cases r with
  | ok a u => exact ⟨back u h.1, h.2⟩
  | error e u =>
    cases e with
    | fault f => exact ⟨back u h.1, h.2⟩
    | outOfFuel => exact Session.Strays.coincides (.after there h) (still u)

theorem mapFault {x : Eval α} {change : Fault → Fault} (h : Ends P s Q (x s))
    (hc : ∀ f, P.mayFail f.cause → P.mayFail (change f).cause) : Ends P s Q (Eval.mapFault change x s) := by
  unfold Eval.mapFault
  generalize x s = r at h ⊢
  cases r with
  | ok a t => exact h
  | error e t =>
    cases e with
    | fault f => exact ⟨h.1, hc f h.2⟩
    | outOfFuel => exact h

/-- What comes next may depend on what the first part did to the session. -/
theorem bind {x : Eval α} {f : α → Eval β} (hs : s.Sound P) (h : Ends P s Q (x s))
    (hf : ∀ a t, x s = .ok a t → s.Leads P t → t.Sound P → Q a → Ends P t R (f a t)) :
    Ends P s R ((x >>= f) s) := by
  change Ends P s R (EStateM.bind x f s)
  unfold EStateM.bind
  generalize hr : x s = r at h ⊢
  cases r with
  | ok a t => exact (hf a t hr h.1 (h.1.sound hs) h.2).after h.1
  | error e t =>
    cases e with
    | fault f => exact h
    | outOfFuel => exact h

end Ends

namespace Obeys

/-! ### Putting computations together -/

theorem pure {a : α} (h : Q a) : Obeys P (Pure.pure a) Q := fun s _ => .ok (.refl s) h

theorem done (a : α) : Obeys P (Pure.pure a) ⊤ := pure trivial

theorem imp {Q' : α → Prop} {x : Eval α} (h : Obeys P x Q) (hQ : ∀ a, Q a → Q' a) : Obeys P x Q' :=
  fun s hs => (h s hs).imp hQ

theorem weaken {x : Eval α} (h : Obeys P x Q) : Obeys P x ⊤ := h.imp fun _ _ => trivial

theorem bind {x : Eval α} {f : α → Eval β} (h : Obeys P x Q) (hf : ∀ a, Q a → Obeys P (f a) R) :
    Obeys P (x >>= f) R := fun s hs => (h s hs).bind hs fun a t _ _ ht ha => hf a ha t ht

/-- What comes next does not depend on what is known of the first result. -/
theorem andThen {x : Eval α} {f : α → Eval β} (h : Obeys P x Q) (hf : ∀ a, Obeys P (f a) R) :
    Obeys P (x >>= f) R := h.bind fun a _ => hf a

theorem outOfFuel : Obeys P (throw .outOfFuel : Eval α) Q := fun s _ => Session.Strays.refl s

theorem fail {f : Fault} (h : P.mayFail f.cause) : Obeys P (Eval.fail f : Eval α) Q :=
  fun s _ => .fault (.refl s) h

theorem failWith {c : Cause} (h : P.mayFail c) : Obeys P (Eval.failWith c : Eval α) Q := fail h

theorem defect {d : Defect} (h : P.mayFail (.defect d)) : Obeys P (Eval.defect d : Eval α) Q := fail h

theorem ofExcept {x : Except Fault α} (h : Permitted P Q x) : Obeys P (Eval.ofExcept x) Q := by
  cases h with
  | ok h => exact pure h
  | error h => exact fail h

/-- A result that is known beforehand. -/
theorem known {x : Except Fault α} {a : α} {f : α → Eval β} (hx : x = .ok a) (h : Obeys P (f a) R) :
    Obeys P (Eval.ofExcept x >>= f) R := by
  subst hx
  exact h

/-- A computation may look at the session, which is sound. -/
theorem get {f : Session → Eval α} (h : ∀ s, s.Sound P → Obeys P (f s) Q) : Obeys P (get >>= f) Q :=
  fun s hs => h s hs s hs

theorem given {x : Eval α} (h : ∀ s, s.Sound P → Ends P s Q (x s)) : Obeys P x Q := h

theorem change {f : Session → Session} (h : ∀ s : Session, s.Sound P → s.Leads P (f s)) :
    Obeys P (modify f) ⊤ := fun s hs => .ok (h s hs) trivial

theorem changeGet {f : Session → α × Session} (h : ∀ s : Session, s.Sound P → s.Leads P (f s).2)
    (hQ : ∀ s : Session, s.Sound P → Q (f s).1) : Obeys P (modifyGet f) Q :=
  fun s hs => .ok (h s hs) (hQ s hs)

theorem mapFault {x : Eval α} {change : Fault → Fault} (h : Obeys P x Q)
    (hc : ∀ f, P.mayFail f.cause → P.mayFail (change f).cause) : Obeys P (Eval.mapFault change x) Q :=
  fun s hs => (h s hs).mapFault hc

theorem blaming {x : Eval α} (h : Obeys P x Q) (l : Location) : Obeys P (Eval.blaming l x) Q :=
  h.mapFault fun f hf => by simpa using hf

theorem attempt {x : Eval α} (h : Obeys P x Q) : Obeys P (Eval.attempt x) (Permitted P Q) := by
  intro s hs
  have inner := h s hs
  unfold Eval.attempt
  generalize x s = r at inner ⊢
  cases r with
  | ok a t => exact .ok inner.1 (.ok inner.2)
  | error e t =>
    cases e with
    | fault f => exact .ok inner.1 (.error inner.2)
    | outOfFuel => exact inner

/-! ### Lists -/

theorem mapM {f : α → Eval β} {xs : List α} (h : ∀ x ∈ xs, Obeys P (f x) R) :
    Obeys P (xs.mapM f) fun ys => ys.length = xs.length ∧ ∀ y ∈ ys, R y := by
  induction xs with
  | nil =>
    rw [List.mapM_nil]
    exact pure (by simp)
  | cons x xs ih =>
    obtain ⟨hx, hxs⟩ := List.forall_mem_cons.1 h
    rw [List.mapM_cons]
    refine hx.bind fun y hy => (ih hxs).bind fun ys hys => pure ?_
    exact ⟨by simp [hys.1], List.forall_mem_cons.2 ⟨hy, hys.2⟩⟩

theorem mapEach {f : α → Eval β} (h : ∀ x, Obeys P (f x) ⊤) (xs : List α) :
    Obeys P (xs.mapM f) ⊤ := (mapM fun x _ => h x).weaken

theorem foldlM {f : β → α → Eval β} {xs : List α} (h : ∀ b x, R b → Obeys P (f b x) R) {b : β}
    (hb : R b) : Obeys P (xs.foldlM f b) R := by
  induction xs generalizing b with
  | nil =>
    rw [List.foldlM_nil]
    exact pure hb
  | cons x xs ih =>
    rw [List.foldlM_cons]
    exact (h b x hb).bind fun b hb => ih hb

theorem forM {f : α → Eval PUnit} {xs : List α} (h : ∀ x ∈ xs, Obeys P (f x) ⊤) :
    Obeys P (xs.forM f) ⊤ := by
  induction xs with
  | nil =>
    exact done PUnit.unit
  | cons x xs ih =>
    obtain ⟨hx, hxs⟩ := List.forall_mem_cons.1 h
    exact hx.andThen fun _ => ih hxs

end Obeys

/-! ### Computations that change the depth of calls -/

/-- The computation ended after permitted changes, in which the depth of calls counts for nothing. If it
ended well, `S` holds of the result and the session; if it failed, `F` of the fault and the session. -/
def Lands (P : Policy) (s : Session) (S : α → Session → Prop) (F : Fault → Session → Prop) :
    EStateM.Result Stop Session α → Prop
  | .ok a t => s.Drifts P t ∧ S a t
  | .error (.fault f) t => s.Drifts P t ∧ F f t
  | .error .outOfFuel t => s.Strays P t

namespace Lands

variable {s t : Session} {S S' : α → Session → Prop} {T : β → Session → Prop}
variable {F : Fault → Session → Prop}

theorem ok {a : α} (h : s.Drifts P t) (ha : S a t) : Lands P s S F (.ok a t) := ⟨h, ha⟩

theorem imp {r : EStateM.Result Stop Session α} (h : Lands P s S F r) (hS : ∀ a t, S a t → S' a t) :
    Lands P s S' F r := by
  cases r with
  | ok a t => exact ⟨h.1, hS a t h.2⟩
  | error e t =>
    cases e with
    | fault f => exact h
    | outOfFuel => exact h

/-- A computation that never fails. -/
theorem never {r : EStateM.Result Stop Session α} (h : Lands P s S (fun _ _ => False) r) :
    Lands P s S F r := by
  cases r with
  | ok a t => exact h
  | error e t =>
    cases e with
    | fault f => exact h.2.elim
    | outOfFuel => exact h

/-- The same seen from an earlier session. -/
theorem after {u : Session} {r : EStateM.Result Stop Session α} (hu : u.Drifts P s)
    (h : Lands P s S F r) : Lands P u S F r := by
  cases r with
  | ok a t => exact ⟨hu.trans h.1, h.2⟩
  | error e t =>
    cases e with
    | fault f => exact ⟨hu.trans h.1, h.2⟩
    | outOfFuel => exact Session.Strays.after hu.evolves h

theorem bind {x : Eval α} {f : α → Eval β} (hs : s.Sound P) (h : Lands P s S F (x s))
    (hf : ∀ a t, s.Drifts P t → t.Sound P → S a t → Lands P t T F (f a t)) :
    Lands P s T F ((x >>= f) s) := by
  change Lands P s T F (EStateM.bind x f s)
  unfold EStateM.bind
  generalize x s = r at h ⊢
  cases r with
  | ok a t => exact (hf a t h.1 (hs.evolves h.1.evolves) h.2).after h.1
  | error e t =>
    cases e with
    | fault f => exact h
    | outOfFuel => exact h

theorem blaming {x : Eval α} (h : Lands P s S F (x s)) (l : Location)
    (hF : ∀ f t, F f t → F (f.orAt l) t) : Lands P s S F (Eval.blaming l x s) := by
  unfold Eval.blaming Eval.mapFault
  generalize x s = r at h ⊢
  cases r with
  | ok a t => exact h
  | error e t =>
    cases e with
    | fault f => exact ⟨h.1, hF f t h.2⟩
    | outOfFuel => exact h

/-- An obedient computation does not change the depth of calls. -/
theorem of_ends {r : EStateM.Result Stop Session α} (h : Ends P s Q r)
    (hS : ∀ a t, r = .ok a t → s.Leads P t → Q a → S a t)
    (hF : ∀ f t, s.Leads P t → P.mayFail f.cause → F f t) : Lands P s S F r := by
  cases r with
  | ok a t => exact ⟨h.1.toDrifts, hS a t rfl h.1 h.2⟩
  | error e t =>
    cases e with
    | fault f => exact ⟨h.1.toDrifts, hF f t h.1 h.2⟩
    | outOfFuel => exact h

/-- A computation that restores the depth of calls ends well. -/
theorem ends {r : EStateM.Result Stop Session α} {depth : Nat} (hd : s.callDepth = depth)
    (h : Lands P s (fun a t => t.callDepth = depth ∧ Q a)
      (fun f t => t.callDepth = depth ∧ P.mayFail f.cause) r) : Ends P s Q r := by
  cases r with
  | ok a t => exact ⟨⟨h.1, h.2.1.trans hd.symm⟩, h.2.2⟩
  | error e t =>
    cases e with
    | fault f => exact ⟨⟨h.1, h.2.1.trans hd.symm⟩, h.2.2⟩
    | outOfFuel => exact h

/-- What a computation fails with is no failure once it is taken as a result. -/
theorem attempt {x : Eval α} (hx : Obeys P x Q) (hs : s.Sound P) {S : Except Fault α → Session → Prop}
    (hS : ∀ r t, s.Leads P t → Permitted P Q r → S r t) : Lands P s S F (Eval.attempt x s) := by
  have ends := hx s hs
  unfold Eval.attempt
  generalize x s = r at ends ⊢
  cases r with
  | ok a t => exact ⟨ends.1.toDrifts, hS _ t ends.1 (.ok ends.2)⟩
  | error e t =>
    cases e with
    | fault f => exact ⟨ends.1.toDrifts, hS _ t ends.1 (.error ends.2)⟩
    | outOfFuel => exact ends

/-- Operands are lent to an obedient computation. They are left as they are if the policy says so. -/
theorem lending {x : Eval α} (hx : Obeys P x Q) (hs : s.Sound P) (operands : Array Value)
    {S : Array Value × Except Fault α → Session → Prop}
    (hS : ∀ r t, s.Leads P t → (P.restores → r.1 = operands) → Permitted P Q r.2 → S r t) :
    Lands P s S F (Eval.lending operands x s) := by
  have given : Session.Change P s { s with operands } := .lend operands
  have back {t : Session} (ht : Session.Leads P { s with operands } t) :
      s.Leads P { t with operands := s.operands } :=
    ⟨⟨((Session.Evolves.single given).trans ht.evolves).tail (.lend s.operands), ht.inhibited, ht.nesting,
      ht.attribution, ht.floor, fun _ => rfl⟩, ht.callDepth⟩
  have ends := hx _ (hs.change given)
  unfold Eval.lending
  generalize x { s with operands } = r at ends ⊢
  cases r with
  | ok a t => exact ⟨(back ends.1).toDrifts, hS _ _ (back ends.1) ends.1.operands (.ok ends.2)⟩
  | error e t =>
    cases e with
    | fault f => exact ⟨(back ends.1).toDrifts, hS _ _ (back ends.1) ends.1.operands (.error ends.2)⟩
    | outOfFuel => exact Session.Strays.after (.single given) ends

end Lands

end TwinLisp
