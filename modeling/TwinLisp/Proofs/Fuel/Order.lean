import TwinLisp.Library.Native

/-!
# Computations that go further

One computation goes *further* than another if it does the same wherever the other does not run out of
fuel. Everything that computations are put together with respects this: what is put together of
computations that go further goes further itself.

## Main definitions

* `Eval.Further`, and the same for ways to call functions and to run native functions.

## Main statements

* `Eval.Further.bind` and its like.
* `Eval.Further.eq`: where the first computation does not run out of fuel, both do the same.
-/

namespace TwinLisp

variable {α β : Type}

/-- The computation ran out of fuel. -/
def Exhausted (r : EStateM.Result Stop Session α) : Prop := ∃ t, r = .error .outOfFuel t

/-- Wherever `x` does not run out of fuel, `y` does the same. -/
def Eval.Further (x y : Eval α) : Prop := ∀ s, y s = x s ∨ Exhausted (x s)

/-- The same of two ways to call functions. -/
def Caller.Further (c d : Caller) : Prop := ∀ callee args, Eval.Further (c callee args) (d callee args)

/-- The same of two ways to run native functions, whatever they call functions with. -/
def NativeRunner.Further (m n : NativeRunner) : Prop :=
  ∀ {c d : Caller}, c.Further d → ∀ k args, Eval.Further (m c k args) (n d k args)

namespace Eval.Further

theorem refl (x : Eval α) : Further x x := fun _ => .inl rfl

theorem outOfFuel (y : Eval α) : Further (throw .outOfFuel) y := fun s => .inr ⟨s, rfl⟩

/-- A computation that does not run out of fuel is as good as any that goes further. -/
theorem eq {x y : Eval α} (h : Further x y) {s : Session} (hs : ¬ Exhausted (x s)) : y s = x s :=
  (h s).resolve_right hs

theorem bind {x y : Eval α} {f g : α → Eval β} (h : Further x y) (hf : ∀ a, Further (f a) (g a)) :
    Further (x >>= f) (y >>= g) := by
  intro s
  change EStateM.bind y g s = EStateM.bind x f s ∨ Exhausted (EStateM.bind x f s)
  unfold EStateM.bind
  rcases h s with same | exhausted
  · rw [same]
    cases x s with
    | ok a t => exact hf a t
    | error e t => exact .inl rfl
  · obtain ⟨t, hx⟩ := exhausted
    exact .inr ⟨t, by rw [hx]⟩

/-- The computations begin in the same way. -/
theorem andThen {x : Eval α} {f g : α → Eval β} (hf : ∀ a, Further (f a) (g a)) :
    Further (x >>= f) (x >>= g) := bind (refl x) hf

theorem always {x y : Eval α} (h : Further x y) (after : Session → Session) :
    Further (Eval.always after x) (Eval.always after y) := by
  intro s
  unfold Eval.always
  rcases h s with same | exhausted
  · exact .inl (by rw [same])
  · obtain ⟨t, hx⟩ := exhausted
    exact .inr ⟨after t, by rw [hx]⟩

theorem mapFault {x y : Eval α} (h : Further x y) (change : Fault → Fault) :
    Further (Eval.mapFault change x) (Eval.mapFault change y) := by
  intro s
  unfold Eval.mapFault
  rcases h s with same | exhausted
  · exact .inl (by rw [same])
  · obtain ⟨t, hx⟩ := exhausted
    exact .inr ⟨t, by rw [hx]⟩

theorem blaming {x y : Eval α} (h : Further x y) (l : Location) :
    Further (Eval.blaming l x) (Eval.blaming l y) := h.mapFault _

theorem attempt {x y : Eval α} (h : Further x y) : Further (Eval.attempt x) (Eval.attempt y) := by
  intro s
  unfold Eval.attempt
  rcases h s with same | exhausted
  · exact .inl (by rw [same])
  · obtain ⟨t, hx⟩ := exhausted
    exact .inr ⟨t, by rw [hx]⟩

theorem lending {x y : Eval α} (h : Further x y) (operands : Array Value) :
    Further (Eval.lending operands x) (Eval.lending operands y) := by
  intro s
  unfold Eval.lending
  rcases h { s with operands } with same | exhausted
  · exact .inl (by rw [same])
  · obtain ⟨t, hx⟩ := exhausted
    exact .inr ⟨t, by rw [hx]⟩

theorem withoutCollection {x y : Eval α} (h : Further x y) :
    Further (Eval.withoutCollection x) (Eval.withoutCollection y) := andThen fun _ => h.always _

theorem attributed {x y : Eval α} (h : Further x y) (site : Location) (arguments : List Location) :
    Further (Eval.attributed site arguments x) (Eval.attributed site arguments y) :=
  andThen fun _ => andThen fun _ => (h.blaming site).always _

theorem mapM {f g : α → Eval β} (h : ∀ a, Further (f a) (g a)) (as : List α) :
    Further (as.mapM f) (as.mapM g) := by
  induction as with
  | nil => exact refl _
  | cons a as ih =>
    rw [List.mapM_cons, List.mapM_cons]
    exact (h a).bind fun _ => ih.bind fun _ => refl _

theorem foldlM {f g : β → α → Eval β} (h : ∀ b a, Further (f b a) (g b a)) (as : List α) (b : β) :
    Further (as.foldlM f b) (as.foldlM g b) := by
  induction as generalizing b with
  | nil => exact refl _
  | cons a as ih =>
    rw [List.foldlM_cons, List.foldlM_cons]
    exact (h b a).bind ih

theorem filterM {p q : α → Eval Bool} (h : ∀ a, Further (p a) (q a)) (as : List α) :
    Further (as.filterM p) (as.filterM q) := by
  have collected (as acc : List α) : Further (as.filterAuxM p acc) (as.filterAuxM q acc) := by
    induction as generalizing acc with
    | nil => exact refl _
    | cons a as ih => exact (h a).bind fun _ => ih _
  exact (collected as []).bind fun _ => refl _

end Eval.Further

end TwinLisp
