import TwinLisp.Library.HigherOrder
import TwinLisp.Proofs.Correspondence.Expansion
import TwinLisp.Proofs.Correspondence.Sequences

/-!
# Built-ins that call functions agree

They do wherever calls agree. Native functions are not interrupted by a collection, so that what they
hold goes on to correspond during a call.

## Main statements

* `Sim.map`, `Sim.filter`, `Sim.reduce` and their like.
* `Sim.swap`, `Sim.compareAndSet`: atoms are updated alike.
-/

namespace TwinLisp

theorem forall₂_dropLast {α β : Type} {R : α → β → Prop} {xs : List α} {ys : List β}
    (h : List.Forall₂ R xs ys) : List.Forall₂ R xs.dropLast ys.dropLast := by
  rw [List.dropLast_eq_take, List.dropLast_eq_take, h.length_eq]
  exact List.forall₂_take _ h

namespace Sim

variable {S : Setting} {q : Bool} {w : World} {v v' : Value} {args args' : List Value}

/-! ### Lists of computations -/

theorem filterM {f g : Value → Eval Bool} {xs ys : List Value} (h : Value.MatchAll w xs ys)
    (hfg : ∀ {w' x y}, w ≤ w' → Value.Match w' x y → Sim S q w' (f x) (g y) Same) :
    Sim S q w (xs.filterM f) (ys.filterM g) Value.MatchAll := by
  have collected (xs : List Value) : ∀ {w' : World} {ys acc acc' : List Value}, w ≤ w' →
      Value.MatchAll w' xs ys → Value.MatchAll w' acc acc' →
      Sim S q w' (xs.filterAuxM f acc) (ys.filterAuxM g acc') Value.MatchAll := by
    induction xs with
    | nil =>
      intro w' ys acc acc' _ h hacc
      cases h
      exact pure hacc
    | cons x xs ih =>
      intro w' ys acc acc' hw h hacc
      obtain ⟨y, ys, hx, hs, rfl⟩ := List.forall₂_cons_left_iff.1 h
      refine bind (hfg hw hx) fun {_ r _} hw' hr => ?_
      cases hr
      refine ih (hw.trans hw') (Value.Match.all_mono hs hw') ?_
      cases r with
      | true => exact .cons (hx.mono hw') (Value.Match.all_mono hacc hw')
      | false => exact Value.Match.all_mono hacc hw'
  exact bind (collected xs le_rfl h .nil) fun _ h => pure (List.forall₂_reverse_iff.2 h)

/-! ### Calls -/

variable {call call' : Caller}

theorem apply (hc : Caller.Match S call call') (h : Value.MatchAll w args args') :
    Sim S true w (Library.apply call args) (Library.apply call' args') Value.Match := by
  have refused := refuseCount (S := S) (q := true) (R := Value.Match) .apply (.atLeast 2) h
  rcases h with _ | ⟨hf, _ | ⟨hx, hs⟩⟩
  · exact refused
  · exact refused
  · have others := List.Forall₂.cons hx hs
    unfold Library.apply
    dsimp only
    rw [others.length_eq, List.getLast?_eq_getElem?, List.getLast?_eq_getElem?, others.length_eq]
    refine bind (elements _ _ (elementAt others _)) fun hw h => ?_
    exact hc (hf.mono hw) (List.rel_append (forall₂_dropLast (Value.Match.all_mono others hw)) h)

/-- The first elements of lists that correspond. -/
theorem heads_match {xss yss : List (List Value)} (h : List.Forall₂ (Value.MatchAll w) xss yss) :
    Option.Rel (Value.MatchAll w) (xss.mapM List.head?) (yss.mapM List.head?) := by
  induction h with
  | nil => exact .some .nil
  | cons h _ ih =>
    rw [List.mapM_cons, List.mapM_cons]
    cases h with
    | nil => exact .none
    | cons hx _ =>
      generalize List.mapM List.head? _ = x at ih ⊢
      generalize List.mapM List.head? _ = y at ih ⊢
      cases ih with
      | none => exact .none
      | some h => exact .some (.cons hx h)

theorem rows_match {xs ys : List Value} {xss yss : List (List Value)} (h : Value.MatchAll w xs ys)
    (hs : List.Forall₂ (Value.MatchAll w) xss yss) :
    List.Forall₂ (Value.MatchAll w) (Library.rows xs xss) (Library.rows ys yss) := by
  induction h generalizing xss yss with
  | nil => exact .nil
  | cons hx _ ih =>
    have heads := heads_match hs
    unfold Library.rows
    generalize xss.mapM List.head? = x at heads ⊢
    generalize yss.mapM List.head? = y at heads ⊢
    cases heads with
    | none => exact .nil
    | some h =>
      refine .cons (.cons hx h) (ih (List.rel_map (fun _ _ h => ?_) hs))
      cases h with
      | nil => exact .nil
      | cons _ h => exact h

theorem map (hc : Caller.Match S call call') (h : Value.MatchAll w args args') :
    Sim S true w (Library.map call args) (Library.map call' args') Value.Match := by
  have refused := refuseCount (S := S) (q := true) (R := Value.Match) .map (.atLeast 2) h
  rcases h with _ | ⟨hf, _ | ⟨hx, hs⟩⟩
  · exact refused
  · exact refused
  · refine bind (allElements .map 1 (.cons hx hs)) fun hw hp => ?_
    cases hp with
    | nil => exact newList .nil
    | cons hp hps =>
      refine bind ?_ fun _ h => newList h
      refine mapM (P := Value.MatchAll) (T := Value.Match) (fun hw h => Value.Match.all_mono h hw)
        (fun hw h => h.mono hw) (rows_match hp hps) fun hw' h => ?_
      exact hc ((hf.mono hw).mono hw') h

theorem filter (hc : Caller.Match S call call') (h : Value.MatchAll w args args') :
    Sim S true w (Library.filter call args) (Library.filter call' args') Value.Match := by
  have refused := refuseCount (S := S) (q := true) (R := Value.Match) .filter (.exactly 2) h
  rcases h with _ | ⟨hf, _ | ⟨hx, _ | ⟨_, _⟩⟩⟩
  · exact refused
  · exact refused
  · refine bind (elements .filter 1 hx) fun hw h => ?_
    refine bind (filterM h fun hw' hx => ?_) fun _ h => newList h
    refine bind (hc ((hf.mono hw).mono hw') (.cons hx .nil)) fun _ hr => ?_
    exact pure hr.isTruthy_eq
  · exact refused

/-- Calls on a result so far and an element. -/
theorem reduceFrom (hc : Caller.Match S call call') {f f' : Value} (hf : f.Match w f')
    (h : Value.MatchAll w args args') (hv : v.Match w v') :
    Sim S true w (args.foldlM (fun acc y => call f [acc, y]) v)
      (args'.foldlM (fun acc y => call' f' [acc, y]) v') Value.Match :=
  foldlM (P := Value.Match) (fun hw h => h.mono hw) h
    (fun hw hv hx => hc (hf.mono hw) (.cons hv (.cons hx .nil))) hv

theorem reduce (hc : Caller.Match S call call') (h : Value.MatchAll w args args') :
    Sim S true w (Library.reduce call args) (Library.reduce call' args') Value.Match := by
  have refused := refuseCount (S := S) (q := true) (R := Value.Match) .reduce (.between 2 3) h
  rcases h with _ | ⟨hf, _ | ⟨hx, _ | ⟨hy, _ | ⟨_, _⟩⟩⟩⟩
  · exact refused
  · exact refused
  · refine bind (elements .reduce 1 hx) fun hw h => ?_
    cases h with
    | nil => exact hc (hf.mono hw) .nil
    | cons hx hs => exact reduceFrom hc (hf.mono hw) hs hx
  · refine bind (elements .reduce 2 hy) fun hw h => ?_
    exact reduceFrom hc (hf.mono hw) h (hx.mono hw)
  · exact refused

/-! ### Atoms -/

theorem atomAddress (b : Builtin) (h : v.Match w v') :
    Sim S q w (Library.atomAddress b v) (Library.atomAddress b v') fun w x y => w.live .atom x y := by
  have refused := refuse (S := S) (q := q) (R := fun w x y => w.live .atom x y) b 0 "atom" h
  cases h with
  | ref k hl => cases k with
    | atom => exact pure hl
    | _ => exact refused
  | _ => exact refused

theorem readAtom {a b : Address} (h : w.live .atom a b) :
    Sim S q w (Library.readAtom a) (Library.readAtom b) Value.Match := by
  refine bind (object h) fun _ ho => ?_
  obtain ⟨hk, ho⟩ := ho
  cases ho with
  | atom hv => exact pure hv
  | _ => cases hk

/-- Atoms that correspond get contents that do, and no other object changes. -/
theorem writeAtom {a b : Address} (h : w.live .atom a b) (hv : v.Match w v') :
    Sim S q w (Library.writeAtom a v) (Library.writeAtom b v') Done := by
  refine bind (readAtom h) fun hw _ => ?_
  intro s t hm _
  obtain ⟨o, o', ho, -, hk, hoo, -⟩ := hm.heap.objects (hw.live h)
  cases hoo with
  | atom _ =>
    refine .ok (Preserves.of_le le_rfl (fun {k c d p} hl hk hp => ?_) rfl rfl rfl)
      (hm.setAtom (hw.live h) ho (hv.mono hw)) trivial
    obtain ⟨p', p'', hp', -, hk', -⟩ := hm.heap.objects hl
    rw [Heap.get?_set, hp]
    by_cases hca : c = a
    · subst hca
      rw [ho] at hp'
      cases hp'
      exact absurd hk'.symm hk
    · rw [if_neg hca]
  | _ => cases hk

theorem deref (h : Value.MatchAll w args args') :
    Sim S q w (Library.deref args) (Library.deref args') Value.Match := by
  have refused := refuseCount (S := S) (q := q) (R := Value.Match) .deref (.exactly 1) h
  rcases h with _ | ⟨hx, _ | ⟨_, _⟩⟩
  · exact refused
  · exact bind (atomAddress .deref hx) fun _ h => readAtom h
  · exact refused

theorem reset (h : Value.MatchAll w args args') :
    Sim S q w (Library.reset args) (Library.reset args') Value.Match := by
  have refused := refuseCount (S := S) (q := q) (R := Value.Match) .reset (.exactly 2) h
  rcases h with _ | ⟨hx, _ | ⟨hy, _ | ⟨_, _⟩⟩⟩
  · exact refused
  · exact refused
  · refine bind (atomAddress .reset hx) fun hw ha => ?_
    exact bind (writeAtom ha (hy.mono hw)) fun hw' _ => pure ((hy.mono hw).mono hw')
  · exact refused

theorem swap (hc : Caller.Match S call call') (h : Value.MatchAll w args args') :
    Sim S true w (Library.swap call args) (Library.swap call' args') Value.Match := by
  have refused := refuseCount (S := S) (q := true) (R := Value.Match) .swap (.atLeast 2) h
  rcases h with _ | ⟨hx, _ | ⟨hf, hs⟩⟩
  · exact refused
  · exact refused
  · refine bind (atomAddress .swap hx) fun hw ha => ?_
    refine bind (readAtom ha) fun hw₁ hold => ?_
    have hf := (hf.mono hw).mono hw₁
    have hs := Value.Match.all_mono (Value.Match.all_mono hs hw) hw₁
    refine bind (hc hf (.cons hold hs)) fun hw₂ hnew => ?_
    exact bind (writeAtom (hw₂.live (hw₁.live ha)) hnew) fun hw₃ _ => pure (hnew.mono hw₃)

theorem compareAndSet (hS : S.exact) (h : Value.MatchAll w args args') :
    Sim S q w (Library.compareAndSet args) (Library.compareAndSet args') Value.Match := by
  have refused := refuseCount (S := S) (q := q) (R := Value.Match) .compareAndSet (.exactly 3) h
  rcases h with _ | ⟨hx, _ | ⟨hold, _ | ⟨hnew, _ | ⟨_, _⟩⟩⟩⟩
  · exact refused
  · exact refused
  · exact refused
  · refine bind (atomAddress .compareAndSet hx) fun hw ha => ?_
    refine bind (readAtom ha) fun hw' hv => ?_
    refine given fun hm => ?_
    rw [hm.heap.identical_eq hm.unique hS hv ((hold.mono hw).mono hw')]
    split
    · exact bind (writeAtom (hw'.live ha) ((hnew.mono hw).mono hw')) fun _ _ => pure (.bool true)
    · exact pure (.bool false)
  · exact refused

end Sim

end TwinLisp
