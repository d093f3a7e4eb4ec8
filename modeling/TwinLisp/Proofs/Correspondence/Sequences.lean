import TwinLisp.Library.Predicates
import TwinLisp.Library.Sequences
import TwinLisp.Proofs.Correspondence.Arguments
import TwinLisp.Proofs.Correspondence.Data

/-!
# Built-ins on values and sequences agree

A test looks at no more of a value than what corresponding values have in common, and a sequence
corresponds to one of the same length, element by element.

## Main statements

* `Sim.typeTest`, `Sim.equality`: tests have the same answer.
* `Sim.onlyElements`, from which the built-ins on one sequence follow.
-/

namespace TwinLisp

namespace Library

theorem isRef_eq {w : World} (k : Kind) {v v' : Value} (h : v.Match w v') : isRef k v = isRef k v' := by
  cases h <;> rfl

end Library

namespace Sim

variable {S : Setting} {q : Bool} {w : World} {v v' : Value} {args args' : List Value}

/-! ### Tests -/

theorem typeTest (b : Builtin) {test : Value → Bool}
    (ht : ∀ {w : World} {v v' : Value}, v.Match w v' → test v = test v')
    (h : Value.MatchAll w args args') :
    Sim S q w (Library.typeTest b test args) (Library.typeTest b test args') Value.Match := by
  have refused := refuseCount (S := S) (q := q) (R := Value.Match) b (.exactly 1) h
  rcases h with _ | ⟨hx, _ | ⟨hy, hs⟩⟩
  · exact refused
  · rw [Library.typeTest, Library.typeTest, ht hx]
    exact pure (.bool _)
  · exact refused

theorem isSequential (h : Value.MatchAll w args args') :
    Sim S q w (Library.isSequential args) (Library.isSequential args') Value.Match := by
  have refused := refuseCount (S := S) (q := q) (R := Value.Match) .isSequential (.exactly 1) h
  rcases h with _ | ⟨hx, _ | ⟨hy, hs⟩⟩
  · exact refused
  · refine get fun hm => ?_
    cases hx with
    | ref k hl =>
      obtain ⟨o, o', ho, ho', -, hoo, -⟩ := hm.heap.objects hl
      simp only [Heap.objectOf?, Value.address?, Option.bind_some, ho, ho']
      cases hoo <;> exact pure (.bool _)
    | _ => exact pure (.bool _)
  · exact refused

theorem allEqual (hS : S.exact) (hv : v.Match w v') (h : Value.MatchAll w args args') :
    Sim S q w (Library.allEqual v args) (Library.allEqual v' args') Same := by
  induction args generalizing w v v' args' with
  | nil =>
    cases h
    exact pure rfl
  | cons x xs ih =>
    obtain ⟨y, ys, hx, hs, rfl⟩ := List.forall₂_cons_left_iff.1 h
    refine bind (areEqual hS hv hx) fun {_ r _} hw hr => ?_
    cases hr
    cases r with
    | true => exact ih (hx.mono hw) (Value.Match.all_mono hs hw)
    | false => exact pure rfl

theorem equality (hS : S.exact) (b : Builtin) (wanted : Bool) (h : Value.MatchAll w args args') :
    Sim S q w (Library.equality b wanted args) (Library.equality b wanted args') Value.Match := by
  cases h with
  | nil => exact refuseCount _ _ .nil
  | cons hx hs =>
    refine bind (allEqual hS hx hs) fun _ hr => ?_
    cases hr
    exact pure (.bool _)

theorem identical (hS : S.exact) (h : Value.MatchAll w args args') :
    Sim S q w (Library.identical args) (Library.identical args') Value.Match := by
  have refused := refuseCount (S := S) (q := q) (R := Value.Match) .identical (.exactly 2) h
  rcases h with _ | ⟨hx, _ | ⟨hy, _ | ⟨hz, hs⟩⟩⟩
  · exact refused
  · exact refused
  · refine given fun hm => ?_
    rw [Library.identical, Library.identical, hm.heap.identical_eq hm.unique hS hx hy]
    exact pure (.bool _)
  · exact refused

/-! ### Parts of sequences -/

theorem onlyElements (b : Builtin) (h : Value.MatchAll w args args') :
    Sim S q w (Library.onlyElements b args) (Library.onlyElements b args') Value.MatchAll := by
  have refused := refuseCount (S := S) (q := q) (R := Value.MatchAll) b (.exactly 1) h
  rcases h with _ | ⟨hx, _ | ⟨hy, hs⟩⟩
  · exact refused
  · exact elements b 0 hx
  · exact refused

/-- The element at an index of a sequence, or `nil`. -/
theorem elementAt {w : World} {vs vs' : List Value} (h : Value.MatchAll w vs vs') (i : Nat) :
    (vs[i]?.getD .nil).Match w (vs'[i]?.getD .nil) :=
  (getElem?_of_forall₂ h i).getD .nil

theorem first (h : Value.MatchAll w args args') :
    Sim S q w (Library.first args) (Library.first args') Value.Match := by
  refine bind (onlyElements .first h) fun _ h => ?_
  rw [List.head?_eq_getElem?, List.head?_eq_getElem?]
  exact pure (elementAt h 0)

theorem second (h : Value.MatchAll w args args') :
    Sim S q w (Library.second args) (Library.second args') Value.Match :=
  bind (onlyElements .second h) fun _ h => pure (elementAt h 1)

theorem last (h : Value.MatchAll w args args') :
    Sim S q w (Library.last args) (Library.last args') Value.Match := by
  refine bind (onlyElements .last h) fun _ h => ?_
  rw [List.getLast?_eq_getElem?, List.getLast?_eq_getElem?, h.length_eq]
  exact pure (elementAt h _)

theorem rest (h : Value.MatchAll w args args') :
    Sim S q w (Library.rest args) (Library.rest args') Value.Match :=
  bind (onlyElements .rest h) fun _ h => newList (List.forall₂_drop 1 h)

theorem next (h : Value.MatchAll w args args') :
    Sim S q w (Library.next args) (Library.next args') Value.Match := by
  refine bind (onlyElements .next h) fun {_ vs vs'} _ h => ?_
  have hd := List.forall₂_drop 1 h
  generalize vs.drop 1 = us at hd ⊢
  generalize vs'.drop 1 = us' at hd ⊢
  cases hd with
  | nil => exact pure .nil
  | cons hx hs => exact newList (.cons hx hs)

theorem seq (h : Value.MatchAll w args args') :
    Sim S q w (Library.seq args) (Library.seq args') Value.Match := by
  refine bind (onlyElements .seq h) fun hw hvs => ?_
  have listed := newList (S := S) (q := q) hvs
  cases hvs with
  | nil => exact pure .nil
  | cons hx hs =>
    rcases h with _ | ⟨hv, hvs⟩
    · exact listed
    · cases hv with
      | ref k hl => cases k with
        | list => cases hvs with
          | nil => exact pure (.ref .list (hw.live hl))
          | cons _ _ => exact listed
        | _ => exact listed
      | _ => exact listed

theorem isEmpty (h : Value.MatchAll w args args') :
    Sim S q w (Library.isEmpty args) (Library.isEmpty args') Value.Match := by
  refine bind (onlyElements .isEmpty h) fun _ h => ?_
  cases h <;> exact pure (.bool _)

theorem reverse (h : Value.MatchAll w args args') :
    Sim S q w (Library.reverse args) (Library.reverse args') Value.Match :=
  bind (onlyElements .reverse h) fun _ h => newList (List.forall₂_reverse_iff.2 h)

/-! ### Sequences of more than one argument -/

theorem cons (h : Value.MatchAll w args args') :
    Sim S q w (Library.cons args) (Library.cons args') Value.Match := by
  have refused := refuseCount (S := S) (q := q) (R := Value.Match) .cons (.exactly 2) h
  rcases h with _ | ⟨hx, _ | ⟨hy, _ | ⟨hz, hs⟩⟩⟩
  · exact refused
  · exact refused
  · exact bind (elements .cons 1 hy) fun hw h => newList (.cons (hx.mono hw) h)
  · exact refused

/-- The elements of all arguments, each blamed for itself. -/
theorem allElements (b : Builtin) (i : Nat) (h : Value.MatchAll w args args') :
    Sim S q w (args.zipIdx.mapM fun x => Library.elements b (x.2 + i) x.1)
      (args'.zipIdx.mapM fun x => Library.elements b (x.2 + i) x.1)
      fun w => List.Forall₂ (Value.MatchAll w) := by
  refine mapM (T := Value.MatchAll)
    (P := fun w (x y : Value × Nat) => x.1.Match w y.1 ∧ x.2 = y.2) (fun hw h => ⟨h.1.mono hw, h.2⟩)
    (fun hw h => Value.Match.all_mono h hw) (forall₂_zipIdx h 0) fun _ hx => ?_
  rw [hx.2]
  exact elements b _ hx.1

theorem concat (h : Value.MatchAll w args args') :
    Sim S q w (Library.concat args) (Library.concat args') Value.Match :=
  bind (allElements .concat 0 h) fun _ h => newList (List.rel_flatten h)

theorem countOf (h : v.Match w v') :
    Sim S q w (Library.countOf v) (Library.countOf v') Same := by
  have refused := refuse (S := S) (q := q) (R := Same (α := Nat)) .count 0 "collection" h
  cases h with
  | nil => exact pure rfl
  | ref k hl => cases k with
    | map => exact bind (map? (.ref .map hl)) fun _ h => pure (h.getD .empty).size_eq
    | set => exact bind (set? (.ref .set hl)) fun _ h => pure (h.getD .empty).size_eq
    | str =>
      refine bind (string? (.ref .str hl)) fun _ h => ?_
      cases h
      exact pure rfl
    | list => exact bind (items? (.ref .list hl)) fun _ h => pure (h.getD .nil).length_eq
    | vector => exact bind (items? (.ref .vector hl)) fun _ h => pure (h.getD .nil).length_eq
    | _ => exact refused
  | _ => exact refused

theorem count (h : Value.MatchAll w args args') :
    Sim S q w (Library.count args) (Library.count args') Value.Match := by
  have refused := refuseCount (S := S) (q := q) (R := Value.Match) .count (.exactly 1) h
  rcases h with _ | ⟨hx, _ | ⟨hy, hs⟩⟩
  · exact refused
  · refine bind (countOf hx) fun _ hn => ?_
    cases hn
    exact pure (.int _)
  · exact refused

theorem nthOf {coll coll' index index' : Value} {d d' : Option Value} (hc : coll.Match w coll')
    (hi : index.Match w index') (hd : Option.Rel (Value.Match w) d d') :
    Sim S q w (Library.nthOf coll index d) (Library.nthOf coll' index' d') Value.Match := by
  refine bind (elements .nth 0 hc) fun {_ vs vs'} hw hvs => ?_
  refine bind (integer .nth 1 (hi.mono hw)) fun {w₁ n _} hw' hn => ?_
  cases hn
  dsimp only
  rw [hvs.length_eq]
  have found : Option.Rel (Value.Match w₁) (if 0 ≤ n.toInt then vs[n.toInt.toNat]? else none)
      (if 0 ≤ n.toInt then vs'[n.toInt.toNat]? else none) := by
    split
    · exact getElem?_of_forall₂ (Value.Match.all_mono hvs hw') _
    · exact .none
  generalize (if 0 ≤ n.toInt then vs[n.toInt.toNat]? else none) = x at found ⊢
  generalize (if 0 ≤ n.toInt then vs'[n.toInt.toNat]? else none) = x' at found ⊢
  cases found with
  | some h => exact pure h
  | none => cases hd with
    | some h => exact pure ((h.mono hw).mono hw')
    | none => exact failAt _ _ rfl

theorem nth (h : Value.MatchAll w args args') :
    Sim S q w (Library.nth args) (Library.nth args') Value.Match := by
  have refused := refuseCount (S := S) (q := q) (R := Value.Match) .nth (.between 2 3) h
  rcases h with _ | ⟨hx, _ | ⟨hy, _ | ⟨hz, _ | ⟨_, _⟩⟩⟩⟩
  · exact refused
  · exact refused
  · exact nthOf hx hy .none
  · exact nthOf hx hy (.some hz)
  · exact refused

end Sim

end TwinLisp
