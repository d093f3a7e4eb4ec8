import Mathlib.Data.List.Perm.Basic

/-!
# Lists related item by item

What is needed about relations between lists and optional values beyond the library: that facts about
the members of a list are enough, and that partners are found.
-/

namespace Option.Rel

variable {α β γ δ : Type} {R S : α → β → Prop} {x : Option α} {y : Option β}

theorem imp (h : Option.Rel R x y) (hRS : ∀ a b, R a b → S a b) : Option.Rel S x y := by
  cases h with
  | some h => exact .some (hRS _ _ h)
  | none => exact .none

theorem map {T : γ → δ → Prop} {f : α → γ} {g : β → δ} (h : Option.Rel R x y)
    (hfg : ∀ a b, R a b → T (f a) (g b)) : Option.Rel T (x.map f) (y.map g) := by
  cases h with
  | some h => exact .some (hfg _ _ h)
  | none => exact .none

theorem getD {a : α} {b : β} (h : Option.Rel R x y) (hab : R a b) : R (x.getD a) (y.getD b) := by
  cases h with
  | some h => exact h
  | none => exact hab

end Option.Rel

namespace TwinLisp

section

variable {α β : Type} {R S : α → β → Prop}

theorem forall₂_imp_of_mem {xs : List α} {ys : List β} (h : List.Forall₂ R xs ys)
    (hRS : ∀ x ∈ xs, ∀ y ∈ ys, R x y → S x y) : List.Forall₂ S xs ys := by
  induction h with
  | nil => exact .nil
  | cons h _ ih =>
    exact .cons (hRS _ (List.mem_cons_self ..) _ (List.mem_cons_self ..) h)
      (ih fun x hx y hy => hRS x (List.mem_cons_of_mem _ hx) y (List.mem_cons_of_mem _ hy))

theorem exists_of_forall₂ {xs : List α} {ys : List β} (h : List.Forall₂ R xs ys) {x : α}
    (hx : x ∈ xs) : ∃ y ∈ ys, R x y := by
  induction h with
  | nil => cases hx
  | cons h _ ih =>
    rcases List.mem_cons.1 hx with rfl | hx
    · exact ⟨_, List.mem_cons_self .., h⟩
    · obtain ⟨y, hy, hr⟩ := ih hx
      exact ⟨y, List.mem_cons_of_mem _ hy, hr⟩

theorem exists_of_forall₂_right {xs : List α} {ys : List β} (h : List.Forall₂ R xs ys) {y : β}
    (hy : y ∈ ys) : ∃ x ∈ xs, R x y := by
  have h' : List.Forall₂ (fun y x => R x y) ys xs := h.flip
  exact exists_of_forall₂ h' hy

theorem exists_forall₂ {xs : List α} (h : ∀ x ∈ xs, ∃ y, R x y) : ∃ ys, List.Forall₂ R xs ys := by
  induction xs with
  | nil => exact ⟨[], .nil⟩
  | cons x xs ih =>
    obtain ⟨y, hy⟩ := h x (List.mem_cons_self ..)
    obtain ⟨ys, hys⟩ := ih fun x hx => h x (List.mem_cons_of_mem _ hx)
    exact ⟨y :: ys, .cons hy hys⟩

theorem eq_of_forall₂ {xs : List α} {ys zs : List β} (h : List.Forall₂ R xs ys)
    (h' : List.Forall₂ R xs zs) (hR : ∀ x ∈ xs, ∀ y z, R x y → R x z → y = z) : ys = zs := by
  induction h generalizing zs with
  | nil => cases h'; rfl
  | cons h _ ih =>
    cases h' with
    | cons k ks =>
      rw [hR _ (List.mem_cons_self ..) _ _ h k, ih ks fun x hx => hR x (List.mem_cons_of_mem _ hx)]

/-- Lists whose members are related only if they are equal. -/
theorem eq_of_forall₂_self {xs ys : List α} {R : α → α → Prop} (h : List.Forall₂ R xs ys)
    (hR : ∀ x ∈ xs, ∀ y, R x y → x = y) : xs = ys := by
  induction h with
  | nil => rfl
  | cons h _ ih =>
    rw [hR _ (List.mem_cons_self ..) _ h, ih fun x hx => hR x (List.mem_cons_of_mem _ hx)]

theorem perm_of_forall₂ {xs xs' : List α} {ys ys' : List β} (hp : xs.Perm xs')
    (h : List.Forall₂ R xs ys) (h' : List.Forall₂ R xs' ys')
    (hR : ∀ x ∈ xs, ∀ y z, R x y → R x z → y = z) : ys.Perm ys' := by
  obtain ⟨zs, hz, hp'⟩ := List.perm_comp_forall₂ hp h'
  rw [eq_of_forall₂ h hz hR]
  exact hp'

theorem map_eq_of_forall₂ {γ : Type} {f : α → γ} {g : β → γ} {xs : List α} {ys : List β}
    (h : List.Forall₂ R xs ys) (hfg : ∀ x ∈ xs, ∀ y ∈ ys, R x y → f x = g y) :
    xs.map f = ys.map g := by
  induction h with
  | nil => rfl
  | cons h _ ih =>
    rw [List.map_cons, List.map_cons, hfg _ (List.mem_cons_self ..) _ (List.mem_cons_self ..) h,
      ih fun x hx y hy => hfg x (List.mem_cons_of_mem _ hx) y (List.mem_cons_of_mem _ hy)]

theorem getElem?_of_forall₂ {xs : List α} {ys : List β} (h : List.Forall₂ R xs ys) (i : Nat) :
    Option.Rel R xs[i]? ys[i]? := by
  induction h generalizing i with
  | nil => exact .none
  | cons h _ ih =>
    cases i with
    | zero => exact .some h
    | succ i => exact ih i

theorem forall₂_set {xs : List α} {ys : List β} {x : α} {y : β} (h : List.Forall₂ R xs ys) (hxy : R x y)
    (i : Nat) : List.Forall₂ R (xs.set i x) (ys.set i y) := by
  induction h generalizing i with
  | nil => exact .nil
  | cons h hs ih =>
    cases i with
    | zero => exact .cons hxy hs
    | succ i => exact .cons h (ih i)

/-- Positions are the same on both sides. -/
theorem forall₂_zipIdx {xs : List α} {ys : List β} (h : List.Forall₂ R xs ys) (i : Nat) :
    List.Forall₂ (fun x y => R x.1 y.1 ∧ x.2 = y.2) (xs.zipIdx i) (ys.zipIdx i) := by
  induction h generalizing i with
  | nil => exact .nil
  | cons h _ ih => exact .cons ⟨h, rfl⟩ (ih (i + 1))

end

end TwinLisp
