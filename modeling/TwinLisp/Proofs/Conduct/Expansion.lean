import TwinLisp.Expansion.Basic
import TwinLisp.Proofs.Conduct.Primitives

/-!
# Expansion obeys

Going from code to values and back, filling in templates and expanding macro calls obey every policy
under which calls of functions do.

## Main statements

* `Obeys.valueOfForm` and `Obeys.formOfValue`.
* `Obeys.expand`, `Obeys.expandHead` and `Obeys.expandOnce`.
-/

namespace TwinLisp

/-- Calls of functions obey the policy. -/
def Caller.Obedient (P : Policy) (call : Caller) : Prop := ∀ f args, Obeys P (call f args) ⊤

namespace Obeys

variable {P : Policy}

/-! ### Code as data -/

theorem valueOfLeaf (d : Leaf) : Obeys P (Eval.valueOfLeaf d) ⊤ := by
  cases d with
  | str s => exact newString s
  | symbol name => exact (symbol name).weaken
  | keyword name => exact keyword name
  | object handle => exact embedded handle
  | _ => exact done _

theorem valueOfGroup (b : Bracket) (items : List Value) (l : Location) :
    Obeys P (Eval.valueOfGroup b items l) ⊤ := by
  cases b with
  | list => exact new nofun
  | vector => exact new nofun
  | map => exact newMap _
  | set => exact newSet _

mutual

theorem valueOfForm : (f : Form) → Obeys P (Eval.valueOfForm f) ⊤
  | .leaf d _ => by
    rw [Eval.valueOfForm]
    exact valueOfLeaf d
  | .group b items l => by
    rw [Eval.valueOfForm]
    exact (valuesOfForms items).andThen fun vs => valueOfGroup b vs l

theorem valuesOfForms : (fs : List Form) → Obeys P (Eval.valuesOfForms fs) ⊤
  | [] => by
    rw [Eval.valuesOfForms]
    exact done _
  | f :: fs => by
    rw [Eval.valuesOfForms]
    exact (valueOfForm f).andThen fun _ => (valuesOfForms fs).andThen fun _ => done _

end

theorem formOfObject {inner : Value → Eval Form} (h : ∀ v, Obeys P (inner v) ⊤) (v : Value)
    (o : Object) : Obeys P (Eval.formOfObject inner v o) ⊤ := by
  cases o with
  | str _ => exact done _
  | list items _ => exact (mapEach h items).andThen fun _ => done _
  | vector items _ => exact (mapEach h items).andThen fun _ => done _
  | map m =>
    refine (mapEach (fun e => ?_) m.toList).andThen fun _ => done _
    exact (h e.1).andThen fun _ => (h e.2).andThen fun _ => done _
  | set s => exact (mapEach h s.toList).andThen fun _ => done _
  | function _ => exact (embed v).andThen fun _ => done _
  | atom _ => exact (embed v).andThen fun _ => done _
  | host _ => exact (embed v).andThen fun _ => done _

theorem formWithin (fuel : Nat) (v : Value) : Obeys P (Eval.formWithin fuel v) ⊤ := by
  have reference (k : Kind) (a : Address) : Obeys P (Eval.formWithin fuel (.ref k a)) ⊤ := by
    induction fuel generalizing k a with
    | zero => cases k <;> first
      | exact (embed _).andThen fun _ => done _
      | exact defect (P.ordinary trivial)
    | succ fuel ih =>
      have inner (v : Value) : Obeys P (Eval.formWithin fuel v) ⊤ := by
        cases v with
        | ref k a => exact ih k a
        | symbol s => cases fuel <;> exact (nameOf s).andThen fun _ => done _
        | keyword s => cases fuel <;> exact (nameOf s).andThen fun _ => done _
        | _ => cases fuel <;> exact done _
      cases k <;> first
        | exact (embed _).andThen fun _ => done _
        | exact (object a).andThen fun o => formOfObject inner _ o
  cases v with
  | ref k a => exact reference k a
  | symbol s => cases fuel <;> exact (nameOf s).andThen fun _ => done _
  | keyword s => cases fuel <;> exact (nameOf s).andThen fun _ => done _
  | _ => cases fuel <;> exact done _

theorem formOfValue (v : Value) : Obeys P (Eval.formOfValue v) ⊤ := get fun _ _ => formWithin _ v

end Obeys

/-! ### Templates -/

namespace Template

/-- A computation that shares fresh names obeys the policy. -/
def Obedient (P : Policy) {α : Type} (x : Naming α) : Prop := ∀ names, Obeys P (x names) ⊤

namespace Obedient

variable {P : Policy} {α β : Type}

theorem pure (a : α) : Obedient P (Pure.pure a) := fun _ => .done _

theorem bind {x : Naming α} {f : α → Naming β} (h : Obedient P x) (hf : ∀ a, Obedient P (f a)) :
    Obedient P (x >>= f) := fun names => (h names).andThen fun r => hf r.1 r.2

theorem lift {x : Eval α} (h : Obeys P x ⊤) : Obedient P (StateT.lift x : Naming α) :=
  fun _ => h.andThen fun _ => .done _

theorem reject [P.Expands] (form : String) {what : Malformation} (h : what.IsOfTemplate) (l : Location) :
    Obedient P (Template.reject form what l : Naming α) :=
  lift (.fail (by rw [malformed, Fault.cause_located]; exact Policy.Expands.malformed form h))

theorem freshName (base : String) : Obedient P (Template.freshName base) := by
  refine bind (x := get) (fun _ => .done _) fun names => ?_
  split
  · exact pure _
  · refine bind (lift (.generateName _)) fun _ => bind (x := modify _) (fun _ => .done _) fun _ => pure _

theorem quoteSymbol (name : String) (l : Location) : Obedient P (Template.quoteSymbol name l) := by
  unfold Template.quoteSymbol
  cases freshBase? name with
  | some base => exact bind (freshName base) fun _ => pure _
  | none => exact pure _

mutual

theorem builderWith [P.Expands] {again : Form → Naming Form} (ha : ∀ f, Obedient P (again f)) :
    (f : Form) → Obedient P (Template.builderWith again f)
  | .leaf d l => by
    cases d with
    | symbol name =>
      rw [Template.builderWith]
      exact quoteSymbol name l
    | _ =>
      rw [Template.builderWith]
      · exact pure _
      · exact nofun
  | .group .list [] l => by
    rw [Template.builderWith]
    exact pure _
  | .group .list [head, inner] l => by
    have parts := partsWith ha l [head, inner]
    rw [Template.builderWith]
    split
    · exact pure _
    · exact reject _ (by trivial) _
    · exact bind (builderWith ha inner) ha
    · exact bind parts fun _ => pure _
  | .group .list (head :: second :: third :: rest) l => by
    have parts := partsWith ha l (head :: second :: third :: rest)
    rw [Template.builderWith]
    · split
      · exact reject _ (by trivial) _
      · exact reject _ (by trivial) _
      · exact bind parts fun _ => pure _
    · simp
  | .group .list [head] l => by
    have parts := partsWith ha l [head]
    rw [Template.builderWith]
    · split
      · exact reject _ (by trivial) _
      · exact reject _ (by trivial) _
      · exact bind parts fun _ => pure _
    · simp
  | .group .vector items l => by
    rw [Template.builderWith]
    · exact bind (partsWith ha l items) fun _ => pure _
    all_goals simp
  | .group .map items l => by
    rw [Template.builderWith]
    · exact bind (partsWith ha l items) fun _ => pure _
    all_goals simp
  | .group .set items l => by
    rw [Template.builderWith]
    · exact bind (partsWith ha l items) fun _ => pure _
    all_goals simp

theorem partsWith [P.Expands] {again : Form → Naming Form} (ha : ∀ f, Obedient P (again f)) (l : Location) :
    (fs : List Form) → Obedient P (Template.partsWith again l fs)
  | [] => by
    rw [Template.partsWith]
    exact pure _
  | item :: rest => by
    rw [Template.partsWith]
    have others (first : Form) : Obedient P
        (do return first :: (← Template.partsWith again l rest)) :=
      bind (partsWith ha l rest) fun _ => pure _
    split
    · exact others _
    · exact others _
    · exact bind (builderWith ha item) fun _ => others _

end

theorem builderWithin [P.Expands] (n : Nat) (f : Form) : Obedient P (Template.builderWithin n f) := by
  induction n generalizing f with
  | zero => exact builderWith pure f
  | succ n ih => exact builderWith ih f

end Obedient

end Template

namespace Obeys

variable {P : Policy}

theorem builder [P.Expands] (f : Form) : Obeys P (Template.builder f) ⊤ :=
  (Template.Obedient.builderWithin _ f []).andThen fun _ => done _

/-! ### Macro calls -/

theorem macroCalled? (p : ExpansionPlace) (f : Form) : Obeys P (Eval.macroCalled? p f) ⊤ := by
  unfold Eval.macroCalled?
  split
  · exact done _
  · split
    · exact done _
    · refine get fun s _ => ?_
      split
      · exact done _
      · split
        · split <;> exact done _
        · exact done _

/-- What is placed has a location, unless the place where it is put has none. -/
theorem location_placed (site : Location) (f : Form) :
    (Eval.placed site f).location.orElse site = (Eval.placed site f).location := by
  unfold Eval.placed
  split
  · next known => exact Location.orElse_of_isKnown known site
  · cases f <;> exact Location.orElse_self site

/-- An expansion is placed at the call, or else at the form around it. -/
theorem expandCall_placed {call : Caller} (hc : call.Obedient P) (remaining : Nat) (p : ExpansionPlace)
    (name : String) (v : Value) (f : Form) : Obeys P (Eval.expandCall call remaining p name v f)
      fun g => g.location.orElse (f.location.orElse p.cursor) = g.location := by
  have applied : Obeys P (do
      let args ← Eval.valuesOfForms (f.items.drop 1)
      let v ← Eval.attributed (f.location.orElse p.cursor) [] (call v args)
      return Eval.placed (f.location.orElse p.cursor) (← Eval.formOfValue v))
      fun g => g.location.orElse (f.location.orElse p.cursor) = g.location := by
    refine (valuesOfForms _).andThen fun args => ?_
    refine (attributed (hc v args) _ _).andThen fun v => ?_
    exact (formOfValue v).andThen fun g => pure (location_placed _ g)
  unfold Eval.expandCall
  dsimp only
  split
  · refine get fun s _ => (fail ?_ : Obeys P _ ⊤).andThen fun _ => applied
    rw [Fault.cause_located]
    exact P.ordinary trivial
  · exact applied

theorem expandCall {call : Caller} (hc : call.Obedient P) (remaining : Nat) (p : ExpansionPlace)
    (name : String) (v : Value) (f : Form) : Obeys P (Eval.expandCall call remaining p name v f) ⊤ :=
  (expandCall_placed hc remaining p name v f).weaken

/-! ### Everything in a form -/

section

variable {hooks : Eval.ExpansionHooks} {n : Nat}

/-- The expansion of forms smaller than `n` obeys the policy. -/
def ExpandsBelow (P : Policy) (hooks : Eval.ExpansionHooks) (n : Nat) : Prop :=
  ∀ (f : Form) (p : ExpansionPlace), sizeOf f < n → Obeys P (Eval.expandWith hooks p f) ⊤

variable (ih : ExpandsBelow P hooks n)
include ih

theorem expandAll (p : ExpansionPlace) {fs : List Form} (hn : sizeOf fs ≤ n) :
    Obeys P (Eval.expandAll hooks p fs) ⊤ := by
  induction fs with
  | nil =>
    rw [Eval.expandAll]
    exact done _
  | cons f fs ihs =>
    rw [List.cons.sizeOf_spec] at hn
    rw [Eval.expandAll]
    exact (ih f p (by omega)).andThen fun _ => (ihs (by omega)).andThen fun _ => done _

theorem expandOverloadClauses (p : ExpansionPlace) {fs : List Form} (hn : sizeOf fs ≤ n) :
    Obeys P (Eval.expandOverloadClauses hooks p fs) ⊤ := by
  induction fs with
  | nil =>
    rw [Eval.expandOverloadClauses]
    exact done _
  | cons clause rest ihs =>
    rw [List.cons.sizeOf_spec] at hn
    unfold Eval.expandOverloadClauses
    split
    · next e => cases e
    · next params body l rest' e =>
      cases e
      simp only [Form.group.sizeOf_spec, List.cons.sizeOf_spec] at hn
      exact (expandAll ih _ (by omega)).andThen fun _ => (ihs (by omega)).andThen fun _ => done _
    · next e =>
      cases e
      exact (ihs (by omega)).andThen fun _ => done _

theorem expandOverloads (p : ExpansionPlace) {fs : List Form} (hn : sizeOf fs ≤ n) :
    Obeys P (Eval.expandOverloads hooks p fs) ⊤ := by
  unfold Eval.expandOverloads
  split
  · rw [List.cons.sizeOf_spec] at hn
    exact (expandAll ih _ (by omega)).andThen fun _ => done _
  · exact expandOverloadClauses ih p hn

theorem expandPairs (p : ExpansionPlace) :
    (fs : List Form) → sizeOf fs ≤ n → Obeys P (Eval.expandPairs hooks p fs) ⊤
  | [], _ => by
    rw [Eval.expandPairs]
    exact done _
  | [name], _ => by
    rw [Eval.expandPairs]
    exact done _
  | name :: value :: rest, hn => by
    simp only [List.cons.sizeOf_spec] at hn
    rw [Eval.expandPairs]
    refine (ih value p (by omega)).andThen fun _ => ?_
    exact (expandPairs _ rest (by omega)).andThen fun _ => done _

theorem expandClauses (p : ExpansionPlace) {fs : List Form} (hn : sizeOf fs ≤ n) :
    Obeys P (Eval.expandClauses hooks p fs) ⊤ := by
  induction fs with
  | nil =>
    rw [Eval.expandClauses]
    exact done _
  | cons clause rest ihs =>
    rw [List.cons.sizeOf_spec] at hn
    have others (f : Form) : Obeys P (do return f :: (← Eval.expandClauses hooks p rest)) ⊤ :=
      (ihs (by omega)).andThen fun _ => done _
    unfold Eval.expandClauses
    split
    · next e => cases e
    · next head type binding body l _ e =>
      cases e
      dsimp only
      split
      · have hn : sizeOf body ≤ n := by
          simp only [Form.group.sizeOf_spec, List.cons.sizeOf_spec] at hn
          omega
        exact (expandAll ih _ hn).andThen fun _ => others _
      · exact (ih _ p (by omega)).andThen others
    · next e =>
      cases e
      exact (ih clause p (by omega)).andThen others

end

/-- The two ways to go on with the parts of a form obey the policy. -/
structure HooksObey (P : Policy) (hooks : Eval.ExpansionHooks) : Prop where
  onMacro : ∀ p name v f, Obeys P (hooks.onMacro p name v f) ⊤
  onTemplate : ∀ p f, Obeys P (hooks.onTemplate p f) ⊤

theorem expandList [P.Expands] {hooks : Eval.ExpansionHooks} (hh : HooksObey P hooks) (p : ExpansionPlace)
    {head : Form} {rest : List Form} (l : Location) {n : Nat} (ih : ExpandsBelow P hooks n)
    (hn : sizeOf (head :: rest) ≤ n) : Obeys P (Eval.expandWith hooks p (.list (head :: rest) l)) ⊤ := by
  have all : Obeys P
      (do return Form.list (← Eval.expandAll hooks (p.within l) (head :: rest)) l) ⊤ :=
    (expandAll ih _ hn).andThen fun _ => done _
  rw [List.cons.sizeOf_spec] at hn
  unfold Eval.expandWith
  dsimp only
  split
  · exact done _
  · split
    · exact hh.onTemplate _ _
    · refine fail ?_
      rw [malformed, Fault.cause_located]
      exact Policy.Expands.malformed _ trivial
  · split
    · exact done _
    · next first more =>
      split
      · rw [List.cons.sizeOf_spec] at hn
        exact (expandOverloads ih _ (by omega)).andThen fun _ => done _
      · exact (expandOverloads ih _ (by omega)).andThen fun _ => done _
  · split
    · exact done _
    · next name doc more =>
      simp only [List.cons.sizeOf_spec] at hn
      split
      · exact (expandOverloads ih _ (by omega)).andThen fun _ => done _
      · refine (expandOverloads ih _ ?_).andThen fun _ => done _
        simp only [List.cons.sizeOf_spec]
        omega
    · exact done _
  case h_5 | h_6 =>
    split
    · exact done _
    · next pairs vl body =>
      simp only [List.cons.sizeOf_spec, Form.group.sizeOf_spec] at hn
      refine (expandPairs ih _ pairs (by omega)).andThen fun _ => ?_
      exact (expandAll ih _ (by omega)).andThen fun _ => done _
    · next bindings body _ =>
      rw [List.cons.sizeOf_spec] at hn
      exact (expandAll ih _ (by omega)).andThen fun _ => done _
  · exact (expandClauses ih _ (by omega)).andThen fun _ => done _
  · exact all
  · refine (macroCalled? _ _).andThen fun found => ?_
    cases found with
    | none => exact all
    | some x => exact hh.onMacro _ _ _ _

theorem expandWith [P.Expands] {hooks : Eval.ExpansionHooks} (hh : HooksObey P hooks) (p : ExpansionPlace)
    (f : Form) : Obeys P (Eval.expandWith hooks p f) ⊤ := by
  induction hn : sizeOf f using Nat.strongRecOn generalizing p f with
  | _ n ih =>
    subst hn
    have ih : ExpandsBelow P hooks (sizeOf f) := fun g p hn => ih _ hn p g rfl
    cases f with
    | leaf d l =>
      rw [Eval.expandWith]
      exact done _
    | group b items l =>
      have hn : sizeOf items ≤ sizeOf (Form.group b items l) := by
        rw [Form.group.sizeOf_spec]
        omega
      have all (p : ExpansionPlace) : Obeys P
          (do return Form.group b (← Eval.expandAll hooks p items) l) ⊤ :=
        (expandAll ih p hn).andThen fun _ => done _
      cases b with
      | vector | map | set =>
        rw [Eval.expandWith] <;> first | exact all _ | simp
      | list => cases items with
        | nil =>
          rw [Eval.expandWith]
          exact done _
        | cons head rest => exact expandList hh p l ih hn

theorem expandWithin [P.Expands] {onMacro : ExpansionPlace → String → Value → Form → Eval Form}
    (hm : ∀ p name v f, Obeys P (onMacro p name v f) ⊤) (n : Nat) (p : ExpansionPlace) (f : Form) :
    Obeys P (Eval.expandWithin onMacro n p f) ⊤ := by
  induction n generalizing p f with
  | zero => exact expandWith ⟨hm, fun _ f => builder f⟩ p f
  | succ n ih => exact expandWith ⟨hm, fun _ f => (builder f).andThen fun _ => ih _ _⟩ p f

variable {call : Caller} (hc : call.Obedient P)
include hc

theorem expandAt [P.Expands] (n : Nat) (p : ExpansionPlace) (f : Form) : Obeys P (Eval.expandAt call n p f) ⊤ := by
  induction n generalizing p f with
  | zero =>
    rw [Eval.expandAt]
    exact expandWithin (expandCall hc 0) _ p f
  | succ n ih =>
    rw [Eval.expandAt]
    exact expandWithin (fun p name v g => (expandCall hc (n + 1) p name v g).andThen fun _ => ih _ _) _ p f

/-- **Expansion obeys.** -/
theorem expand [P.Expands] (f : Form) : Obeys P (Eval.expand call f) ⊤ :=
  withoutCollection (get fun _ _ => expandAt hc _ _ f)

theorem expandHeadAt (n : Nat) (cursor : Location) (f : Form) :
    Obeys P (Eval.expandHeadAt call n cursor f) ⊤ := by
  induction n generalizing cursor f with
  | zero =>
    refine (macroCalled? _ f).andThen fun found => ?_
    cases found with
    | none => exact done _
    | some x => exact expandCall hc 0 _ _ _ _
  | succ n ih =>
    refine (macroCalled? _ f).andThen fun found => ?_
    cases found with
    | none => exact done _
    | some x => exact (expandCall hc (n + 1) _ _ _ _).andThen fun _ => ih _ _

/-- **Expansion of the head obeys.** -/
theorem expandHead (f : Form) : Obeys P (Eval.expandHead call f) ⊤ :=
  withoutCollection (get fun _ _ => expandHeadAt hc _ _ f)

/-- **A single expansion obeys.** -/
theorem expandOnce (f : Form) : Obeys P (Eval.expandOnce call f) ⊤ := by
  refine withoutCollection ((macroCalled? _ f).andThen fun found => ?_)
  cases found with
  | none => exact done _
  | some x => exact get fun _ _ => (expandCall hc _ _ _ _ _).andThen fun _ => done _

end Obeys

end TwinLisp
