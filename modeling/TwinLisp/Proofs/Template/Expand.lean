import TwinLisp.Proofs.Expansion.Expanded
import TwinLisp.Proofs.Template.Ground

/-!
# Expanding the code of templates

The code that a template stands for is expanded in its turn. As long as the functions that it calls are no macros,
only the expressions in the template are expanded, each once and from left to right. What comes out is the code of
the same template with other expressions.

## Main definitions

* `Template.Plan.expand`: a template whose expressions are expanded.

## Main statements

* `Template.Plan.expandWith_code`: the code is expanded by expanding the expressions.
* `Template.expandWithin_template`: so is a template in a form.
-/

namespace TwinLisp

/-- No function that the code of templates calls is a macro. -/
def Session.CallsPlainly (s : Session) : Prop := ∀ b ∈ needed, s.macro? b.name = none

namespace Template

variable {hooks : Eval.ExpansionHooks} {p : ExpansionPlace} {s : Session}

/-! ### Expanding the expressions of a template -/

mutual

/-- The expressions of a template are expanded, one after another. -/
def Plan.expand (hooks : Eval.ExpansionHooks) (p : ExpansionPlace) : Plan → Eval Plan
  | .leaf d l => return .leaf d l
  | .hole e => return .hole (← Eval.expandWith hooks p e)
  | .group b parts l => return .group b (← parts.expand hooks (p.within l)) l

/-- The expressions in the parts of a group are expanded. -/
def Parts.expand (hooks : Eval.ExpansionHooks) (p : ExpansionPlace) : Parts → Eval Parts
  | .nil => return .nil
  | .item plan l rest => do
    let plan ← plan.expand hooks (p.within l)
    let rest ← rest.expand hooks p
    return .item plan l rest
  | .splice e rest => do
    let e ← Eval.expandWith hooks p e
    let rest ← rest.expand hooks p
    return .splice e rest

end

/-- The functions that the code of templates calls stay what they are while an expression is expanded. -/
def StaysPlain (hooks : Eval.ExpansionHooks) (e : Form) : Prop :=
  ∀ p s g t, s.CallsPlainly → Eval.expandWith hooks p e s = .ok g t → t.CallsPlainly

/-! ### Calls -/

theorem within_within (p : ExpansionPlace) (l : Location) : (p.within l).within l = p.within l := by
  unfold ExpansionPlace.within Location.orElse
  split <;> rfl

/-- The call of a function that is no macro is expanded by expanding its arguments. -/
theorem expandWith_call {name : String} {args : List Form} {l : Location}
    (special : SpecialForm.ofName? name = none) (plain : s.macro? name = none) :
    Eval.expandWith hooks p (.call name args l) s =
      (do return .call name (← Eval.expandAll hooks (p.within l) args) l : Eval Form) s := by
  have called : Eval.macroCalled? (p.within l) (.call name args l) s = .ok none s := by
    rw [Eval.macroCalled?_eq]
    unfold Form.macroCall? Form.call
    rw [Form.headSymbol?_list]
    simp [Form.symbolName?, plain]
  unfold Form.call Eval.expandWith
  rw [show (Form.symbol name l).symbolName?.bind SpecialForm.ofName? = none from special]
  refine (Eval.bind_eq_of_ok called).trans ?_
  change (Eval.expandAll hooks (p.within l) (.symbol name l :: args) >>= fun fs => pure (Form.list fs l)) s = _
  rw [Eval.expandAll, Eval.expandWith]
  simp only [bind_assoc, pure_bind]

namespace StaysPlain

theorem leaf (d : Leaf) (l : Location) : StaysPlain hooks (.leaf d l) := by
  intro p s g t plain ran
  rw [Eval.expandWith] at ran
  cases ran
  exact plain

/-- The functions stay what they are while several forms are expanded. -/
theorem all {fs gs : List Form} {t : Session} (h : ∀ e ∈ fs, StaysPlain hooks e) (plain : s.CallsPlainly)
    (ran : Eval.expandAll hooks p fs s = .ok gs t) : t.CallsPlainly := by
  induction fs generalizing s gs with
  | nil =>
    rw [Eval.expandAll] at ran
    cases ran
    exact plain
  | cons f fs ih =>
    obtain ⟨first, others⟩ := List.forall_mem_cons.1 h
    rw [Eval.expandAll] at ran
    obtain ⟨g, u, front, more⟩ := Eval.of_bind_eq_ok ran
    obtain ⟨gs, v, back, last⟩ := Eval.of_bind_eq_ok more
    cases last
    exact ih others (first p s g u plain front) back

theorem call {b : Builtin} (needed : b ∈ Session.needed) {args : List Form}
    (h : ∀ e ∈ args, StaysPlain hooks e) (l : Location) : StaysPlain hooks (.call b.name args l) := by
  intro p s g t plain ran
  have special : SpecialForm.ofName? b.name = none := by
    simp only [Session.needed, List.mem_cons, List.not_mem_nil, or_false] at needed
    rcases needed with rfl | rfl | rfl | rfl | rfl | rfl | rfl <;> rfl
  obtain ⟨gs, u, expanded, last⟩ := Eval.of_bind_eq_ok ((expandWith_call special (plain b needed)).symm.trans ran)
  cases last
  exact all h plain expanded

end StaysPlain

/-- A group is expanded by expanding the sequences that it is made of. -/
theorem expandWith_build (plain : s.CallsPlainly) (b : Bracket) (codes : List Form) (l : Location) :
    Eval.expandWith hooks p (build b codes l) s =
      (do return build b (← Eval.expandAll hooks (p.within l) codes) l : Eval Form) s := by
  have concat (f : Form → Form) : (do return f (← Eval.expandWith hooks (p.within l) (.call "concat" codes l))) s =
      (do return f (.call "concat" (← Eval.expandAll hooks (p.within l) codes) l) : Eval Form) s := by
    have inner : Eval.expandWith hooks (p.within l) (.call "concat" codes l) s = _ :=
      expandWith_call rfl (plain .concat (by decide))
    rw [within_within] at inner
    refine (Eval.bind_congr inner fun _ _ _ => rfl).trans ?_
    simp only [bind_assoc, pure_bind]
  have applied (name : String) : Eval.expandWith hooks p (Template.applied name codes l) s =
      (do return Template.applied name (← Eval.expandAll hooks (p.within l) codes) l : Eval Form) s := by
    refine (expandWith_call (s := s) rfl (plain .apply (by decide))).trans ?_
    rw [Eval.expandAll, Eval.expandAll, Eval.expandAll, Eval.expandWith]
    simp only [bind_assoc, pure_bind]
    exact concat fun f => .call "apply" [.symbol name l, f] l
  cases b with
  | list =>
    refine (expandWith_call (s := s) rfl (plain .seq (by decide))).trans ?_
    rw [Eval.expandAll, Eval.expandAll]
    simp only [bind_assoc, pure_bind]
    exact concat fun f => .call "seq" [f] l
  | vector => exact applied "vector"
  | map => exact applied "hash-map"
  | set => exact applied "hash-set"

/-! ### Templates -/

/-- A group that has parts goes on having some. -/
theorem Parts.expand_ne_nil {parts later : Parts} {t : Session} (ran : parts.expand hooks p s = .ok later t)
    (full : parts ≠ .nil) : later ≠ .nil := by
  cases parts with
  | nil => exact absurd rfl full
  | item plan l rest =>
    obtain ⟨_, _, -, more⟩ := Eval.of_bind_eq_ok ran
    obtain ⟨_, _, -, last⟩ := Eval.of_bind_eq_ok more
    cases last
    exact nofun
  | splice e rest =>
    obtain ⟨_, _, -, more⟩ := Eval.of_bind_eq_ok ran
    obtain ⟨_, _, -, last⟩ := Eval.of_bind_eq_ok more
    cases last
    exact nofun

mutual

/-- The functions stay what they are while a template is expanded. -/
theorem Plan.plain_expand : (plan : Plan) → (∀ e ∈ plan.expressions, StaysPlain hooks e) →
    ∀ {p : ExpansionPlace} {s t : Session} {later : Plan}, s.CallsPlainly → plan.expand hooks p s = .ok later t →
      t.CallsPlainly
  | .leaf d l, _, p, s, t, later, plain, ran => by
    cases ran
    exact plain
  | .hole e, stays, p, s, t, later, plain, ran => by
    obtain ⟨g, u, expanded, last⟩ := Eval.of_bind_eq_ok ran
    cases last
    exact stays e (List.mem_singleton_self e) p s g t plain expanded
  | .group b parts l, stays, p, s, t, later, plain, ran => by
    obtain ⟨_, u, expanded, last⟩ := Eval.of_bind_eq_ok ran
    cases last
    exact Parts.plain_expand parts stays plain expanded

theorem Parts.plain_expand : (parts : Parts) → (∀ e ∈ parts.expressions, StaysPlain hooks e) →
    ∀ {p : ExpansionPlace} {s t : Session} {later : Parts}, s.CallsPlainly → parts.expand hooks p s = .ok later t →
      t.CallsPlainly
  | .nil, _, p, s, t, later, plain, ran => by
    cases ran
    exact plain
  | .item plan l rest, stays, p, s, t, later, plain, ran => by
    obtain ⟨first, others⟩ := List.forall_mem_append.1 stays
    obtain ⟨_, u, front, more⟩ := Eval.of_bind_eq_ok ran
    obtain ⟨_, v, back, last⟩ := Eval.of_bind_eq_ok more
    cases last
    exact Parts.plain_expand rest others (Plan.plain_expand plan first plain front) back
  | .splice e rest, stays, p, s, t, later, plain, ran => by
    obtain ⟨first, others⟩ := List.forall_mem_cons.1 stays
    obtain ⟨g, u, front, more⟩ := Eval.of_bind_eq_ok ran
    obtain ⟨_, v, back, last⟩ := Eval.of_bind_eq_ok more
    cases last
    exact Parts.plain_expand rest others (first p s g u plain front) back

end

variable {name : String → String}

mutual

/-- **The code of a template is expanded by expanding the expressions in it**, each once and from left to right. -/
theorem Plan.expandWith_code : (plan : Plan) → (∀ e ∈ plan.expressions, StaysPlain hooks e) →
    ∀ {p : ExpansionPlace} {s : Session}, s.CallsPlainly →
      Eval.expandWith hooks p (plan.code name) s = (do return (← plan.expand hooks p).code name : Eval Form) s
  | .leaf d l, _, p, s, _ => by
    rw [Plan.expand, pure_bind]
    cases d with
    | symbol text =>
      rw [Plan.code, Form.call, Form.list, Eval.expandWith]
      rfl
    | _ => rw [Plan.code, Eval.expandWith]; exact nofun
  | .hole e, _, p, s, _ => by
    rw [Plan.expand]
    simp only [bind_assoc, pure_bind, Plan.code, bind_pure]
  | .group b parts l, stays, p, s, plain => by
    rw [Plan.expand]
    by_cases empty : b = .list ∧ parts = .nil
    · obtain ⟨rfl, rfl⟩ := empty
      rw [Plan.code, Parts.expand, pure_bind, pure_bind]
      exact (expandWith_call rfl (plain .list (by decide))).trans (by rw [Eval.expandAll, pure_bind]; rfl)
    · have full : b = .list → parts ≠ .nil := fun list none => empty ⟨list, none⟩
      have expanded : Eval.expandAll hooks (p.within l) (parts.codes name) s = _ :=
        Parts.expandAll_codes parts stays plain
      rw [Plan.code_group full]
      refine (expandWith_build plain b _ l).trans ((Eval.bind_congr expanded fun _ _ _ => rfl).trans ?_)
      simp only [bind_assoc, pure_bind]
      refine Eval.bind_congr rfl fun later t ran => ?_
      rw [Plan.code_group fun list => Parts.expand_ne_nil ran (full list)]

theorem Parts.expandAll_codes : (parts : Parts) → (∀ e ∈ parts.expressions, StaysPlain hooks e) →
    ∀ {p : ExpansionPlace} {s : Session}, s.CallsPlainly →
      Eval.expandAll hooks p (parts.codes name) s =
        (do return (← parts.expand hooks p).codes name : Eval (List Form)) s
  | .nil, _, p, s, _ => by
    rw [Parts.expand, Parts.codes, Eval.expandAll, pure_bind]
    rfl
  | .item plan l rest, stays, p, s, plain => by
    obtain ⟨first, others⟩ := List.forall_mem_append.1 stays
    have called : Eval.expandWith hooks p (.call "list" [plan.code name] l) s =
        (plan.expand hooks (p.within l) >>= fun later => pure (.call "list" [later.code name] l)) s := by
      refine (expandWith_call rfl (plain .list (by decide))).trans ?_
      simp only [Eval.expandAll, bind_assoc, pure_bind]
      refine (Eval.bind_congr (Plan.expandWith_code plan first plain) fun _ _ _ => rfl).trans ?_
      simp only [bind_assoc, pure_bind]
      rfl
    rw [Parts.expand, Parts.codes, Eval.expandAll]
    refine (Eval.bind_congr called fun _ _ _ => rfl).trans ?_
    simp only [bind_assoc, pure_bind]
    refine Eval.bind_congr rfl fun later t ran => ?_
    have after : t.CallsPlainly := Plan.plain_expand plan first plain ran
    refine (Eval.bind_congr (Parts.expandAll_codes rest others after) fun _ _ _ => rfl).trans ?_
    simp only [bind_assoc, pure_bind, Parts.codes]
  | .splice e rest, stays, p, s, plain => by
    obtain ⟨first, others⟩ := List.forall_mem_cons.1 stays
    rw [Parts.expand, Parts.codes, Eval.expandAll]
    simp only [bind_assoc, pure_bind]
    refine Eval.bind_congr rfl fun g t ran => ?_
    have after : t.CallsPlainly := first p s g t plain ran
    refine (Eval.bind_congr (Parts.expandAll_codes rest others after) fun _ _ _ => rfl).trans ?_
    simp only [bind_assoc, pure_bind, Parts.codes]

end

/-! ### Forms that hold templates -/

/-- What is done with macro calls, and with templates where so many are left. -/
def hooksWithin (onMacro : ExpansionPlace → String → Value → Form → Eval Form) : Nat → Eval.ExpansionHooks
  | 0 => ⟨onMacro, fun _ f => builder f⟩
  | n + 1 => ⟨onMacro, fun p f => builder f >>= Eval.expandWithin onMacro n p⟩

variable {onMacro : ExpansionPlace → String → Value → Form → Eval Form}

theorem expandWithin_eq (n : Nat) (p : ExpansionPlace) (f : Form) :
    Eval.expandWithin onMacro n p f = Eval.expandWith (hooksWithin onMacro n) p f := by
  cases n <;> rfl

/-- **A template in a form is expanded to the code of its plan**, whose expressions are expanded. -/
theorem expandWithin_template {f : Form} {plan : Plan} {names : FreshNames} {t : Session}
    (built : builder f s = .ok (plan.code names.rename) t) (plain : t.CallsPlainly) {n : Nat}
    (stays : ∀ e ∈ plan.expressions, StaysPlain (hooksWithin onMacro n) e) (p : ExpansionPlace) (l : Location) :
    Eval.expandWithin onMacro (n + 1) p (.call "syntax-quote" [f] l) s =
      (do return (← plan.expand (hooksWithin onMacro n) (p.within l)).code names.rename : Eval Form) t := by
  have replaced : Eval.expandWithin onMacro (n + 1) p (.call "syntax-quote" [f] l) =
      (builder f >>= Eval.expandWithin onMacro n (p.within l)) := by
    rw [expandWithin_eq, Form.call, Form.list, Eval.expandWith]
    rfl
  rw [replaced, Eval.bind_eq_of_ok built, expandWithin_eq]
  exact Plan.expandWith_code plan stays plain

end Template

end TwinLisp
