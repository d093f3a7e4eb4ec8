import TwinLisp.Library.Collections
import TwinLisp.Proofs.Correspondence.Arguments
import TwinLisp.Proofs.Correspondence.Data

/-!
# Built-ins on collections agree

Keys that correspond are found in collections that do, under the same position.

## Main statements

* `Sim.lookup?`: what all lookups share.
* `Sim.callData`: data is called alike.
-/

namespace TwinLisp

namespace Sim

variable {S : Setting} {q : Bool} {w : World} {v v' : Value} {args args' : List Value}

/-! ### Lookup -/

theorem index?_eq (h : v.Match w v') : Library.index? v = Library.index? v' := by cases h <;> rfl

/-- **What is found in collections that correspond does so as well.** -/
theorem lookup? {key key' : Value} (h : v.Match w v') (hk : key.Match w key') :
    Sim S q w (Library.lookup? v key) (Library.lookup? v' key') (Optional Value.Match) := by
  have missing : Sim S q w (Pure.pure none : Eval (Option Value)) (Pure.pure none)
      (Optional Value.Match) := pure .none
  cases h with
  | ref k hl => cases k with
    | map =>
      refine bind (map? (.ref .map hl)) fun hw hm => ?_
      cases hm with
      | none => exact pure .none
      | some hm =>
        refine bind (keyOf (hk.mono hw)) fun hw' hk' => ?_
        refine unique fun hu => pure ?_
        exact ((hm.mono hw' fun _ _ he => he.mono hw').get? hu hk').map fun _ _ he => he.2
    | set =>
      refine bind (set? (.ref .set hl)) fun hw hs => ?_
      cases hs with
      | none => exact pure .none
      | some hs =>
        refine bind (keyOf (hk.mono hw)) fun hw' hk' => ?_
        refine unique fun hu => pure ?_
        exact (hs.mono hw' fun _ _ he => he.mono hw').get? hu hk'
    | vector =>
      unfold Library.lookup?
      dsimp only
      rw [index?_eq hk]
      split
      · exact bind (items? (.ref .vector hl)) fun _ h => pure (getElem?_of_forall₂ (h.getD .nil) _)
      · exact missing
    | str =>
      unfold Library.lookup?
      dsimp only
      rw [index?_eq hk]
      split
      · refine bind (string? (.ref .str hl)) fun _ h => ?_
        cases h
        refine pure ?_
        rw [← List.getElem?_map]
        exact getElem?_of_forall₂ (Value.matchAll_chars _) _
      · exact missing
    | _ => exact missing
  | _ => exact missing

/-- A lookup with a default. -/
theorem lookupOr {key key' d d' : Value} (h : v.Match w v') (hk : key.Match w key')
    (hd : d.Match w d') :
    Sim S q w (do return (← Library.lookup? v key).getD d)
      (do return (← Library.lookup? v' key').getD d') Value.Match :=
  bind (lookup? h hk) fun hw h => pure (h.getD (hd.mono hw))

theorem getFrom (h : Value.MatchAll w args args') :
    Sim S q w (Library.getFrom args) (Library.getFrom args') Value.Match := by
  have refused := refuseCount (S := S) (q := q) (R := Value.Match) .get (.between 2 3) h
  rcases h with _ | ⟨hx, _ | ⟨hy, _ | ⟨hz, _ | ⟨_, _⟩⟩⟩⟩
  · exact refused
  · exact refused
  · exact lookupOr hx hy .nil
  · exact lookupOr hx hy hz
  · exact refused

theorem keyIfAny (h : v.Match w v') :
    Sim S q w (Library.keyIfAny v) (Library.keyIfAny v') (Optional Key.Match) := by
  refine get fun hm => ?_
  obtain ⟨x, y, hx, hy, hxy⟩ := hm.heap.key h
  rw [hx, hy]
  exact pure (.some hxy)

theorem any_contains {α : Type} {R : α → α → Prop} {c d : Ordered α} {k l : Option Key}
    (h : c.Match w R d) (hu : w.Unique) (hk : Option.Rel (Key.Match w) k l) :
    k.any c.contains = l.any d.contains := by
  cases hk with
  | none => rfl
  | some hk => exact h.contains_eq hu hk

theorem contains (h : Value.MatchAll w args args') :
    Sim S q w (Library.contains args) (Library.contains args') Value.Match := by
  have refused := refuseCount (S := S) (q := q) (R := Value.Match) .contains (.exactly 2) h
  have absent : Sim S q w (Pure.pure (.bool false) : Eval Value) (Pure.pure (.bool false))
      Value.Match := pure (.bool false)
  rcases h with _ | ⟨hc, _ | ⟨hk, _ | ⟨_, _⟩⟩⟩
  · exact refused
  · exact refused
  · have other := refuse (S := S) (q := q) (R := Value.Match) .contains 0 "associative collection" hc
    cases hc with
    | nil => exact absent
    | ref k hl => cases k with
      | map =>
        refine bind (map? (.ref .map hl)) fun hw hm => ?_
        refine bind (keyIfAny (hk.mono hw)) fun hw' hk' => unique fun hu => ?_
        have hm := (hm.getD .empty).mono hw' fun _ _ he => he.mono hw'
        rw [any_contains hm hu hk']
        exact pure (.bool _)
      | set =>
        refine bind (set? (.ref .set hl)) fun hw hs => ?_
        refine bind (keyIfAny (hk.mono hw)) fun hw' hk' => unique fun hu => ?_
        have hs := (hs.getD .empty).mono hw' fun _ _ he => he.mono hw'
        rw [any_contains hs hu hk']
        exact pure (.bool _)
      | vector =>
        unfold Library.contains
        dsimp only
        rw [index?_eq hk]
        split
        · refine bind (items? (.ref .vector hl)) fun _ h => ?_
          rw [(h.getD .nil).length_eq]
          exact pure (.bool _)
        · exact absent
      | _ => exact other
    | _ => exact other
  · exact refused

theorem mapView (b : Builtin) {view : Value × Value → Value}
    (hv : ∀ {w : World} {e e' : Value × Value}, Entry.Match w e e' → (view e).Match w (view e'))
    (h : Value.MatchAll w args args') :
    Sim S q w (Library.mapView b view args) (Library.mapView b view args') Value.Match := by
  have refused := refuseCount (S := S) (q := q) (R := Value.Match) b (.exactly 1) h
  rcases h with _ | ⟨hx, _ | ⟨_, _⟩⟩
  · exact refused
  · have other := refuse (S := S) (q := q) (R := Value.Match) b 0 "map" hx
    cases hx with
    | nil => exact pure .nil
    | ref k hl => cases k with
      | map =>
        refine bind (map? (.ref .map hl)) fun _ hm => ?_
        have hm := hm.getD .empty
        dsimp only
        rw [hm.isEmpty_eq]
        split
        · exact pure .nil
        · exact newList (List.rel_map (fun _ _ he => hv he) hm.toList)
      | _ => exact other
    | _ => exact other
  · cases hx with
    | ref k _ => cases k <;> exact refused
    | _ => exact refused

/-! ### Construction and update -/

theorem hashMap (h : Value.MatchAll w args args') :
    Sim S q w (Library.hashMap args) (Library.hashMap args') Value.Match := by
  unfold Library.hashMap
  rw [h.length_eq]
  split
  · exact failWith _ rfl
  · exact newMap (pairUp_match h)

theorem addEntry (i : Nat) {m m' : OrderedMap} (hm : m.Match w (Entry.Match w) m') (h : v.Match w v') :
    Sim S q w (Library.addEntry m i v) (Library.addEntry m' i v')
      fun w m m' => m.Match w (Entry.Match w) m' := by
  have refused {w : World} (h : v.Match w v') := refuse (S := S) (q := q)
    (R := fun w m m' => Ordered.Match w (Entry.Match w) m m') .conj i "map entry" h
  have others := refused h
  cases h with
  | nil => exact pure hm
  | ref k hl => cases k with
    | vector =>
      refine bind (items? (.ref .vector hl)) fun hw h => ?_
      have others := refused (.ref .vector (hw.live hl))
      rcases h with ⟨_ | ⟨hx, _ | ⟨hy, _ | ⟨_, _⟩⟩⟩⟩ | _
      · exact others
      · exact others
      · exact insertEntries (hm.mono hw fun _ _ he => he.mono hw) (.cons ⟨hx, hy⟩ .nil)
      · exact others
      · exact others
    | map =>
      refine bind (map? (.ref .map hl)) fun hw h => ?_
      exact insertEntries (hm.mono hw fun _ _ he => he.mono hw) (h.getD .empty).toList
    | _ => exact others
  | _ => exact others

theorem conj (h : Value.MatchAll w args args') :
    Sim S q w (Library.conj args) (Library.conj args') Value.Match := by
  cases h with
  | nil => exact newVector .nil
  | cons hc hs =>
    have refused := refuse (S := S) (q := q) (R := Value.Match) .conj 0 "collection" hc
    cases hc with
    | nil => exact newList (List.forall₂_reverse_iff.2 hs)
    | ref k hl => cases k with
      | list =>
        refine bind (items? (.ref .list hl)) fun hw h => newList ?_
        exact List.rel_append (List.forall₂_reverse_iff.2 (Value.Match.all_mono hs hw)) (h.getD .nil)
      | vector =>
        refine bind (items? (.ref .vector hl)) fun hw h => newVector ?_
        exact List.rel_append (h.getD .nil) (Value.Match.all_mono hs hw)
      | set =>
        refine bind (set? (.ref .set hl)) fun hw h => ?_
        exact bind (insertMembers (h.getD .empty) (Value.Match.all_mono hs hw)) fun _ h => new (.set h)
      | map =>
        refine bind (map? (.ref .map hl)) fun hw h => ?_
        refine bind ?_ fun _ h => new (.map h)
        refine foldlM (P := fun w (x y : Value × Nat) => x.1.Match w y.1 ∧ x.2 = y.2)
          (T := fun w m m' => Ordered.Match w (Entry.Match w) m m') (fun hw h => ⟨h.1.mono hw, h.2⟩)
          (forall₂_zipIdx (Value.Match.all_mono hs hw) 0) (fun _ hm hx => ?_) (h.getD .empty)
        rw [hx.2]
        exact addEntry _ hm hx.1
      | _ => exact refused
    | _ => exact refused

theorem replaceItems {items items' : List Value} {es es' : List (Value × Value)} (i : Nat)
    (h : Value.MatchAll w items items') (he : List.Forall₂ (Entry.Match w) es es') :
    Sim S q w (Library.replaceItems items i es) (Library.replaceItems items' i es') Value.MatchAll := by
  induction es generalizing w items items' i es' with
  | nil =>
    cases he
    exact pure h
  | cons e es ih =>
    obtain ⟨e', es', hxy, hs, rfl⟩ := List.forall₂_cons_left_iff.1 he
    obtain ⟨key, v⟩ := e
    obtain ⟨key', v'⟩ := e'
    obtain ⟨hk, hv⟩ := hxy
    have refused := refuse (S := S) (q := q) (R := Value.MatchAll) .assoc i "integer" hk
    cases hk with
    | int n =>
      unfold Library.replaceItems
      dsimp only
      rw [h.length_eq]
      split
      · exact failAt _ _ rfl
      split
      · exact ih _ (List.rel_append h (.cons hv .nil)) hs
      · refine ih _ ?_ hs
        exact forall₂_set h hv _
    | _ => exact refused

theorem assoc (h : Value.MatchAll w args args') :
    Sim S q w (Library.assoc args) (Library.assoc args') Value.Match := by
  have refused := refuseCount (S := S) (q := q) (R := Value.Match) .assoc (.atLeast 3) h
  rcases h with _ | ⟨hc, _ | ⟨hx, _ | ⟨hy, hs⟩⟩⟩
  · exact refused
  · exact refused
  · exact refused
  · have hargs := List.Forall₂.cons hx (.cons hy hs)
    have other := refuse (S := S) (q := q) (R := Value.Match) .assoc 0 "map or vector" hc
    unfold Library.assoc
    dsimp only
    rw [hargs.length_eq]
    split
    · exact refused
    · cases hc with
      | nil => exact newMap (pairUp_match hargs)
      | ref k hl => cases k with
        | map =>
          refine bind (map? (.ref .map hl)) fun hw h => ?_
          refine bind (insertEntries (h.getD .empty)
            (pairUp_match (Value.Match.all_mono hargs hw))) fun _ h => new (.map h)
        | vector =>
          refine bind (items? (.ref .vector hl)) fun hw h => ?_
          refine bind (replaceItems 1 (h.getD .nil)
            (pairUp_match (Value.Match.all_mono hargs hw))) fun _ h => newVector h
        | _ => exact other
      | _ => exact other

theorem dissoc (h : Value.MatchAll w args args') :
    Sim S q w (Library.dissoc args) (Library.dissoc args') Value.Match := by
  cases h with
  | nil => exact refuseCount _ _ .nil
  | cons hc hs =>
    have refused := refuse (S := S) (q := q) (R := Value.Match) .dissoc 0 "map" hc
    cases hc with
    | nil => exact pure .nil
    | ref k hl => cases k with
      | map =>
        refine bind (map? (.ref .map hl)) fun hw h => ?_
        refine bind ?_ fun _ h => new (.map h)
        refine foldlM (P := Value.Match) (T := fun w m m' => Ordered.Match w (Entry.Match w) m m')
          (fun hw h => h.mono hw) (Value.Match.all_mono hs hw) (fun _ hm hx => ?_) (h.getD .empty)
        refine bind (keyOf hx) fun hw' hk => unique fun hu => pure ?_
        exact (hm.mono hw' fun _ _ he => he.mono hw').erase hu hk
      | _ => exact refused
    | _ => exact refused

/-! ### Collections as functions -/

theorem orElse {x y : Option Value} {e e' : Eval Value} (h : Option.Rel (Value.Match w) x y)
    (he : Sim S q w e e' Value.Match) :
    Sim S q w (match x with | some v => Pure.pure v | none => e)
      (match y with | some v => Pure.pure v | none => e') Value.Match := by
  cases h with
  | some h => exact pure h
  | none => exact he

theorem callData (h : v.Match w v') (hs : Value.MatchAll w args args') :
    Sim S q w (Library.callData v args) (Library.callData v' args') Value.Match := by
  have refused (name : String) (accepts : Accepts) :
      Sim S q w (Eval.failWith (α := Value) (.arity name accepts args.length))
        (Eval.failWith (.arity name accepts args'.length)) Value.Match := by
    rw [hs.length_eq]
    exact failWith _ rfl
  have other : Sim S q w (Eval.failWith (α := Value) (.notCallable v.typeName))
      (Eval.failWith (.notCallable v'.typeName)) Value.Match := by
    rw [h.typeName_eq]
    exact failWith _ rfl
  cases h with
  | keyword hx =>
    have named {s t : Session} (hm : s.Match S w t) := hm.text_eq false (.keyword hx)
    rcases hs with _ | ⟨ha, _ | ⟨hb, _ | ⟨_, _⟩⟩⟩
    · exact get fun hm => named hm ▸ refused _ _
    · exact lookupOr ha (.keyword hx) .nil
    · exact lookupOr ha (.keyword hx) hb
    · exact get fun hm => named hm ▸ refused _ _
  | ref k hl => cases k with
    | map =>
      rcases hs with _ | ⟨ha, _ | ⟨hb, _ | ⟨_, _⟩⟩⟩
      · exact refused _ _
      · exact lookupOr (.ref .map hl) ha .nil
      · exact lookupOr (.ref .map hl) ha hb
      · exact refused _ _
    | set =>
      rcases hs with _ | ⟨ha, _ | ⟨_, _⟩⟩
      · exact refused _ _
      · exact lookupOr (.ref .set hl) ha .nil
      · exact refused _ _
    | vector =>
      rcases hs with _ | ⟨ha, _ | ⟨_, _⟩⟩
      · exact refused _ _
      · refine bind (items? (.ref .vector hl)) fun hw h => ?_
        have hi := h.getD (a := []) (b := []) .nil
        cases ha with
        | int n =>
          dsimp only
          rw [hi.length_eq]
          refine orElse ?_ (failAt _ _ rfl)
          cases Library.index? (.int n) with
          | none => exact .none
          | some i => exact getElem?_of_forall₂ hi i
        | _ => exact failAt _ _ rfl
      · exact refused _ _
    | _ => exact other
  | _ => exact other

end Sim

end TwinLisp
