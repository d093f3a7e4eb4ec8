import TwinLisp.Proofs.Fuel.Order

/-!
# Native functions with a caller that goes further

Expansion and the native functions call functions in whatever way they are given. With a way that goes
further they go further themselves.

## Main statements

* `Eval.Further.expand`, `Eval.Further.expandHead`, `Eval.Further.expandOnce`.
* `NativeRunner.further_runNative`.
-/

namespace TwinLisp

namespace Eval.Further

/-! ### Everything in a form -/

section

variable {g h : ExpansionHooks} {n : Nat}

/-- The expansion of forms smaller than `n` goes further with other hooks. -/
def ExpandsBelow (g h : ExpansionHooks) (n : Nat) : Prop :=
  ∀ (f : Form) (p : ExpansionPlace), sizeOf f < n → Further (Eval.expandWith g p f) (Eval.expandWith h p f)

variable (ih : ExpandsBelow g h n)
include ih

theorem expandAll (p : ExpansionPlace) {fs : List Form} (hn : sizeOf fs ≤ n) :
    Further (Eval.expandAll g p fs) (Eval.expandAll h p fs) := by
  induction fs with
  | nil =>
    rw [Eval.expandAll, Eval.expandAll]
    exact refl _
  | cons f fs ihs =>
    rw [List.cons.sizeOf_spec] at hn
    rw [Eval.expandAll, Eval.expandAll]
    exact (ih f p (by omega)).bind fun _ => (ihs (by omega)).bind fun _ => refl _

theorem expandOverloadClauses (p : ExpansionPlace) {fs : List Form} (hn : sizeOf fs ≤ n) :
    Further (Eval.expandOverloadClauses g p fs) (Eval.expandOverloadClauses h p fs) := by
  induction fs with
  | nil =>
    rw [Eval.expandOverloadClauses, Eval.expandOverloadClauses]
    exact refl _
  | cons clause rest ihs =>
    rw [List.cons.sizeOf_spec] at hn
    unfold Eval.expandOverloadClauses
    split
    · next e => cases e
    · next params body l rest' e =>
      cases e
      simp only [Form.group.sizeOf_spec, List.cons.sizeOf_spec] at hn
      exact (expandAll ih _ (by omega)).bind fun _ => (ihs (by omega)).bind fun _ => refl _
    · next e =>
      cases e
      exact (ihs (by omega)).bind fun _ => refl _

theorem expandOverloads (p : ExpansionPlace) {fs : List Form} (hn : sizeOf fs ≤ n) :
    Further (Eval.expandOverloads g p fs) (Eval.expandOverloads h p fs) := by
  unfold Eval.expandOverloads
  split
  · rw [List.cons.sizeOf_spec] at hn
    exact (expandAll ih _ (by omega)).bind fun _ => refl _
  · exact expandOverloadClauses ih p hn

theorem expandPairs (p : ExpansionPlace) :
    (fs : List Form) → sizeOf fs ≤ n → Further (Eval.expandPairs g p fs) (Eval.expandPairs h p fs)
  | [], _ => by
    rw [Eval.expandPairs, Eval.expandPairs]
    exact refl _
  | [name], _ => by
    rw [Eval.expandPairs, Eval.expandPairs]
    exact refl _
  | name :: value :: rest, hn => by
    simp only [List.cons.sizeOf_spec] at hn
    rw [Eval.expandPairs, Eval.expandPairs]
    refine (ih value p (by omega)).bind fun _ => ?_
    exact (expandPairs _ rest (by omega)).bind fun _ => refl _

theorem expandClauses (p : ExpansionPlace) {fs : List Form} (hn : sizeOf fs ≤ n) :
    Further (Eval.expandClauses g p fs) (Eval.expandClauses h p fs) := by
  induction fs with
  | nil =>
    rw [Eval.expandClauses, Eval.expandClauses]
    exact refl _
  | cons clause rest ihs =>
    rw [List.cons.sizeOf_spec] at hn
    have others (f : Form) : Further (do return f :: (← Eval.expandClauses g p rest))
        (do return f :: (← Eval.expandClauses h p rest)) := (ihs (by omega)).bind fun _ => refl _
    unfold Eval.expandClauses
    split
    · next e => cases e
    · next head type binding body l _ e =>
      cases e
      dsimp only
      split
      · have hn : sizeOf body ≤ n := by
          simp only [Form.group.sizeOf_spec, List.cons.sizeOf_spec] at hn
          omega
        exact (expandAll ih _ hn).bind fun _ => others _
      · exact (ih _ p (by omega)).bind others
    · next e =>
      cases e
      exact (ih clause p (by omega)).bind others

end

end Eval.Further

/-- The hooks do what others do wherever those do not run out of fuel. -/
structure Eval.ExpansionHooks.Further (g h : ExpansionHooks) : Prop where
  onMacro : ∀ p name v f, Eval.Further (g.onMacro p name v f) (h.onMacro p name v f)
  onTemplate : ∀ p f, Eval.Further (g.onTemplate p f) (h.onTemplate p f)

namespace Eval.Further

theorem expandList {g h : ExpansionHooks} (hh : g.Further h) (p : ExpansionPlace) {head : Form}
    {rest : List Form} (l : Location) {n : Nat} (ih : ExpandsBelow g h n)
    (hn : sizeOf (head :: rest) ≤ n) : Further (Eval.expandWith g p (.list (head :: rest) l))
      (Eval.expandWith h p (.list (head :: rest) l)) := by
  have all : Further (do return Form.list (← Eval.expandAll g (p.within l) (head :: rest)) l)
      (do return Form.list (← Eval.expandAll h (p.within l) (head :: rest)) l) :=
    (expandAll ih _ hn).bind fun _ => refl _
  rw [List.cons.sizeOf_spec] at hn
  unfold Eval.expandWith
  dsimp only
  split
  · exact refl _
  · split
    · exact hh.onTemplate _ _
    · exact refl _
  · split
    · exact refl _
    · next first more =>
      split
      · rw [List.cons.sizeOf_spec] at hn
        exact (expandOverloads ih _ (by omega)).bind fun _ => refl _
      · exact (expandOverloads ih _ (by omega)).bind fun _ => refl _
  · split
    · exact refl _
    · next name doc more =>
      simp only [List.cons.sizeOf_spec] at hn
      split
      · exact (expandOverloads ih _ (by omega)).bind fun _ => refl _
      · refine (expandOverloads ih _ ?_).bind fun _ => refl _
        simp only [List.cons.sizeOf_spec]
        omega
    · exact refl _
  case h_5 | h_6 =>
    split
    · exact refl _
    · next pairs vl body =>
      simp only [List.cons.sizeOf_spec, Form.group.sizeOf_spec] at hn
      refine (expandPairs ih _ pairs (by omega)).bind fun _ => ?_
      exact (expandAll ih _ (by omega)).bind fun _ => refl _
    · next bindings body _ =>
      rw [List.cons.sizeOf_spec] at hn
      exact (expandAll ih _ (by omega)).bind fun _ => refl _
  · exact (expandClauses ih _ (by omega)).bind fun _ => refl _
  · exact all
  · refine andThen fun found => ?_
    cases found with
    | none => exact all
    | some x => exact hh.onMacro _ _ _ _

theorem expandWith {g h : ExpansionHooks} (hh : g.Further h) (p : ExpansionPlace) (f : Form) :
    Further (Eval.expandWith g p f) (Eval.expandWith h p f) := by
  induction hn : sizeOf f using Nat.strongRecOn generalizing p f with
  | _ n ih =>
    subst hn
    have ih : ExpandsBelow g h (sizeOf f) := fun f p hn => ih _ hn p f rfl
    cases f with
    | leaf d l =>
      rw [Eval.expandWith, Eval.expandWith]
      exact refl _
    | group b items l =>
      have hn : sizeOf items ≤ sizeOf (Form.group b items l) := by
        rw [Form.group.sizeOf_spec]
        omega
      have all (p : ExpansionPlace) : Further (do return Form.group b (← Eval.expandAll g p items) l)
          (do return Form.group b (← Eval.expandAll h p items) l) :=
        (expandAll ih p hn).bind fun _ => refl _
      cases b with
      | vector | map | set =>
        rw [Eval.expandWith, Eval.expandWith] <;> first | exact all _ | simp
      | list => cases items with
        | nil =>
          rw [Eval.expandWith, Eval.expandWith]
          exact refl _
        | cons head rest => exact expandList hh p l ih hn

theorem expandWithin {m m' : ExpansionPlace → String → Value → Form → Eval Form}
    (hm : ∀ p name v f, Further (m p name v f) (m' p name v f)) (n : Nat) (p : ExpansionPlace)
    (f : Form) : Further (Eval.expandWithin m n p f) (Eval.expandWithin m' n p f) := by
  induction n generalizing p f with
  | zero => exact expandWith (g := ⟨m, _⟩) (h := ⟨m', _⟩) ⟨hm, fun _ _ => refl _⟩ p f
  | succ n ih =>
    exact expandWith (g := ⟨m, _⟩) (h := ⟨m', _⟩) ⟨hm, fun _ _ => andThen fun _ => ih _ _⟩ p f

/-! ### Macro calls -/

section

variable {c d : Caller} (h : c.Further d)
include h

theorem expandCall (remaining : Nat) (p : ExpansionPlace) (name : String) (v : Value) (f : Form) :
    Further (Eval.expandCall c remaining p name v f) (Eval.expandCall d remaining p name v f) := by
  have applied : Further
      (do
        let args ← Eval.valuesOfForms (f.items.drop 1)
        let v ← Eval.attributed (f.location.orElse p.cursor) [] (c v args)
        return Eval.placed (f.location.orElse p.cursor) (← Eval.formOfValue v))
      (do
        let args ← Eval.valuesOfForms (f.items.drop 1)
        let v ← Eval.attributed (f.location.orElse p.cursor) [] (d v args)
        return Eval.placed (f.location.orElse p.cursor) (← Eval.formOfValue v)) :=
    andThen fun args => ((h v args).attributed _ _).bind fun _ => refl _
  unfold Eval.expandCall
  dsimp only
  split
  · exact andThen fun _ => andThen fun _ => applied
  · exact applied

theorem expandAt (n : Nat) (p : ExpansionPlace) (f : Form) :
    Further (Eval.expandAt c n p f) (Eval.expandAt d n p f) := by
  induction n generalizing p f with
  | zero =>
    rw [Eval.expandAt, Eval.expandAt]
    exact expandWithin (expandCall h 0) _ p f
  | succ n ih =>
    rw [Eval.expandAt, Eval.expandAt]
    exact expandWithin (fun p name v g => (expandCall h (n + 1) p name v g).bind fun _ => ih _ _) _ p f

theorem expand (f : Form) : Further (Eval.expand c f) (Eval.expand d f) :=
  withoutCollection (andThen fun _ => expandAt h _ _ f)

theorem expandHeadAt (n : Nat) (cursor : Location) (f : Form) :
    Further (Eval.expandHeadAt c n cursor f) (Eval.expandHeadAt d n cursor f) := by
  induction n generalizing cursor f with
  | zero =>
    refine andThen fun found => ?_
    cases found with
    | none => exact refl _
    | some x => exact expandCall h 0 _ _ _ _
  | succ n ih =>
    refine andThen fun found => ?_
    cases found with
    | none => exact refl _
    | some x => exact (expandCall h (n + 1) _ _ _ _).bind fun _ => ih _ _

theorem expandHead (f : Form) : Further (Eval.expandHead c f) (Eval.expandHead d f) :=
  withoutCollection (andThen fun _ => expandHeadAt h _ _ f)

theorem expandOnce (f : Form) : Further (Eval.expandOnce c f) (Eval.expandOnce d f) := by
  refine withoutCollection (andThen fun found => ?_)
  cases found with
  | none => exact refl _
  | some x => exact andThen fun _ => (expandCall h _ _ _ _ _).bind fun _ => refl _

/-! ### Built-ins that call functions -/

theorem apply (args : List Value) : Further (Library.apply c args) (Library.apply d args) := by
  unfold Library.apply
  split
  · exact andThen fun _ => h _ _
  · exact refl _

theorem map (args : List Value) : Further (Library.map c args) (Library.map d args) := by
  unfold Library.map
  split
  · refine andThen fun found => ?_
    cases found with
    | nil => exact refl _
    | cons xs others => exact (mapM (h _) _).bind fun _ => refl _
  · exact refl _

theorem filter (args : List Value) : Further (Library.filter c args) (Library.filter d args) := by
  unfold Library.filter
  split
  · refine andThen fun items => ?_
    exact (filterM (fun _ => (h _ _).bind fun _ => refl _) items).bind fun _ => refl _
  · exact refl _

theorem reduce (args : List Value) : Further (Library.reduce c args) (Library.reduce d args) := by
  have combined (f start : Value) (items : List Value) :
      Further (items.foldlM (fun acc y => c f [acc, y]) start)
        (items.foldlM (fun acc y => d f [acc, y]) start) := foldlM (fun _ _ => h _ _) _ _
  unfold Library.reduce
  split
  · refine andThen fun items => ?_
    cases items with
    | nil => exact h _ _
    | cons x xs => exact combined _ _ _
  · exact andThen fun _ => combined _ _ _
  · exact refl _

theorem swap (args : List Value) : Further (Library.swap c args) (Library.swap d args) := by
  unfold Library.swap
  split
  · exact andThen fun _ => andThen fun _ => (h _ _).bind fun _ => refl _
  · exact refl _

theorem macroexpandOne (args : List Value) :
    Further (Library.macroexpandOne c args) (Library.macroexpandOne d args) := by
  unfold Library.macroexpandOne
  split
  · exact andThen fun _ => (expandOnce h _).bind fun _ => refl _
  · exact refl _

theorem expandTimes (n : Nat) (form : Form) :
    Further (Library.expandTimes c n form) (Library.expandTimes d n form) := by
  induction n generalizing form with
  | zero => exact refl _
  | succ n ih =>
    refine (expandOnce h _).bind fun found => ?_
    cases found with
    | none => exact refl _
    | some expansion => exact (ih expansion).bind fun _ => refl _

theorem macroexpand (args : List Value) :
    Further (Library.macroexpand c args) (Library.macroexpand d args) := by
  unfold Library.macroexpand
  split
  · exact andThen fun _ => andThen fun _ => (expandTimes h _ _).bind fun _ => refl _
  · exact refl _

/-- Most built-ins call nothing. -/
theorem run (b : Builtin) (args : List Value) :
    Further (Library.run c b args) (Library.run d b args) := by
  cases b with
  | apply => exact apply h args
  | map => exact map h args
  | filter => exact filter h args
  | reduce => exact reduce h args
  | swap => exact swap h args
  | macroexpandOne => exact macroexpandOne h args
  | macroexpand => exact macroexpand h args
  | _ => exact refl _

end

end Eval.Further

/-- **Native functions go further** with a caller that does. -/
theorem NativeRunner.further_runNative (hosts : HostTable) :
    (Eval.runNative hosts).Further (Eval.runNative hosts) := by
  intro c d h k args
  refine Eval.Further.withoutCollection ?_
  cases k with
  | builtin b => exact .run h b args
  | host i => exact .refl _

end TwinLisp
