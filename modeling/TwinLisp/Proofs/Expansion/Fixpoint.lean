import TwinLisp.Proofs.Collection.Pairwise
import TwinLisp.Proofs.Expansion.Evaluated
import TwinLisp.Proofs.Expansion.Steady

/-!
# Expansion is done when it ends

Where macro calls leave the macros of a session alone, expansion makes expanded code: none of the code in it
is a template or calls a macro that is not hidden, so that expanding it again changes nothing.

There is one thing that expansion does not look at again. If the head of a list is itself a macro call or a
template, it may turn into a symbol, and the list into a macro call or a special form that it was not before.
Code with such lists is left out here.

## Main definitions

* `Form.PlainlyHeaded`: no list in a form is headed by a macro call or a template.

## Main statements

* `Template.builder_steadily`: a template is replaced by code with fewer templates.
* `Eval.expand_expanded`: what expansion makes is expanded.
* `Eval.expand_fixpoint`: so nothing that is evaluated in it calls a macro, and expanding it again changes
  nothing.
-/

namespace TwinLisp

/-! ### Heads of lists -/

namespace Form

variable {macros : String → Option Value}

/-- The form is neither a macro call nor a template, wherever it stands. -/
def IsPlainHead (macros : String → Option Value) (f : Form) : Prop :=
  f.special? ≠ some .template ∧ ∀ locals, f.macroCall? macros locals = none

/-- No list in the form is headed by a macro call or a template. -/
inductive PlainlyHeaded (macros : String → Option Value) : Form → Prop where
  | leaf (d : Leaf) (l : Location) : PlainlyHeaded macros (.leaf d l)
  | group {b : Bracket} {items : List Form} {l : Location}
    (head : b = .list → ∀ f ∈ items.head?, f.IsPlainHead macros)
    (parts : ∀ f ∈ items, PlainlyHeaded macros f) : PlainlyHeaded macros (.group b items l)

theorem isPlainHead_leaf (d : Leaf) (l : Location) : (Form.leaf d l).IsPlainHead macros :=
  ⟨(fun h => by cases h), fun _ => rfl⟩

theorem PlainlyHeaded.items {f : Form} (h : f.PlainlyHeaded macros) :
    ∀ g ∈ f.items, g.PlainlyHeaded macros := by
  cases h with
  | leaf d l => simp [Form.items]
  | group _ parts => exact parts

theorem PlainlyHeaded.call {args : List Form} (name : String) (l : Location)
    (h : ∀ f ∈ args, f.PlainlyHeaded macros) : (Form.call name args l).PlainlyHeaded macros := by
  refine .group (fun _ f hf => ?_) fun f hf => ?_
  · cases hf
    exact isPlainHead_leaf _ _
  · rcases List.mem_cons.1 hf with rfl | hf
    · exact .leaf _ _
    · exact h f hf

theorem PlainlyHeaded.placed {f : Form} (h : f.PlainlyHeaded macros) (site : Location) :
    (Eval.placed site f).PlainlyHeaded macros := by
  unfold Eval.placed
  split
  · exact h
  · cases h with
    | leaf d l => exact .leaf d _
    | group head parts => exact .group head parts

theorem templates_le_of_mem {f : Form} : {fs : List Form} → f ∈ fs → f.templates ≤ templatesIn fs
  | g :: gs, h => by
    rw [templatesIn]
    rcases List.mem_cons.1 h with rfl | h
    · exact Nat.le_add_right _ _
    · exact Nat.le_add_left_of_le (templates_le_of_mem h)

theorem templatesIn_le_templates (b : Bracket) (items : List Form) (l : Location) :
    templatesIn items ≤ (Form.group b items l).templates := by
  rw [templates]
  exact Nat.le_add_left _ _

theorem templates_call {name : String} (h : name ≠ "syntax-quote") (args : List Form) (l : Location) :
    (Form.call name args l).templates = templatesIn args := by
  simp [call, templates, templatesIn, isCallTo, headSymbol?, h]

theorem eq_of_ofName?_template {name : String} (h : SpecialForm.ofName? name = some .template) :
    name = "syntax-quote" := by
  unfold SpecialForm.ofName? at h
  split at h <;> first | rfl | cases h

/-- There are fewer templates in a template. -/
theorem templates_lt_of_template {head : Form} (inner : Form) (l : Location)
    (h : head.symbolName?.bind SpecialForm.ofName? = some .template) :
    inner.templates < (Form.list [head, inner] l).templates := by
  obtain ⟨name, hn, template⟩ := Option.bind_eq_some_iff.1 h
  obtain rfl := eq_of_ofName?_template template
  have head : (Form.list [head, inner] l).isCallTo "syntax-quote" = true := by
    unfold symbolName? at hn
    split at hn
    · cases hn
      rfl
    · cases hn
  rw [templates, if_pos head, templatesIn, templatesIn]
  omega

/-- Code to expand that holds at most `k` templates. -/
structure Ready (macros : String → Option Value) (k : Nat) (f : Form) : Prop where
  heads : f.PlainlyHeaded macros
  templates : f.templates ≤ k

theorem Ready.items {k : Nat} {f : Form} (h : f.Ready macros k) : ∀ g ∈ f.items, g.Ready macros k := by
  intro g hg
  refine ⟨h.heads.items g hg, Nat.le_trans ?_ h.templates⟩
  cases f with
  | leaf d l => simp [Form.items] at hg
  | group b items l => exact Nat.le_trans (templates_le_of_mem hg) (templatesIn_le_templates b items l)

end Form

/-! ### Templates -/

namespace Template

variable {macros : String → Option Value} {α β : Type}

/-- The same for a computation that shares fresh names. -/
def Steadily (macros : String → Option Value) (x : Naming α) (Q : α → Prop) : Prop :=
  ∀ names, Eval.Steadily macros (x names) fun r => Q r.1

/-- Code that replaces the form `f` holds no more templates. -/
structure Builds (macros : String → Option Value) (f code : Form) : Prop where
  heads : code.PlainlyHeaded macros
  templates : code.templates ≤ f.templates

namespace Builds

variable {f : Form} {l : Location}

theorem refl (h : f.PlainlyHeaded macros) : Builds macros f f := ⟨h, Nat.le_refl _⟩

theorem call {name : String} (hn : name ≠ "syntax-quote") {args : List Form} (l : Location)
    (heads : ∀ r ∈ args, r.PlainlyHeaded macros) (templates : Form.templatesIn args ≤ f.templates) :
    Builds macros f (.call name args l) :=
  ⟨.call name l heads, by rwa [Form.templates_call hn]⟩

theorem call_one {name : String} (hn : name ≠ "syntax-quote") {code : Form} (l : Location)
    (h : Builds macros f code) : Builds macros f (.call name [code] l) := by
  refine call hn l (fun r hr => ?_) h.templates
  rw [List.mem_singleton.1 hr]
  exact h.heads

/-- A part of a form replaces it. -/
theorem item {g : Form} (h : f.PlainlyHeaded macros) (hg : g ∈ f.items) : Builds macros f g :=
  ⟨h.items g hg, (Form.Ready.items ⟨h, Nat.le_refl _⟩ g hg).templates⟩

theorem build {b : Bracket} {items parts : List Form} (heads : ∀ r ∈ parts, r.PlainlyHeaded macros)
    (templates : Form.templatesIn parts ≤ Form.templatesIn items) :
    Builds macros (.group b items l) (Template.build b parts l) := by
  have concat : Builds macros (.group b items l) (.call "concat" parts l) :=
    .call (by decide) l heads (Nat.le_trans templates (Form.templatesIn_le_templates b items l))
  have applied (name : String) : Builds macros (.group b items l) (Template.applied name parts l) := by
    refine .call (by decide) l (fun r hr => ?_) ?_
    · rcases List.mem_pair.1 hr with rfl | rfl
      · exact .leaf _ _
      · exact concat.heads
    · simpa [Form.templatesIn, Form.templates] using concat.templates
  cases b with
  | list => exact concat.call_one (by decide) l
  | _ => exact applied _

end Builds

namespace Steadily

variable {Q : α → Prop} {R : β → Prop}

theorem pure {a : α} (ha : Q a) : Steadily macros (Pure.pure a) Q := fun _ => .pure ha

theorem bind {x : Naming α} {f : α → Naming β} (hx : Steadily macros x Q)
    (hf : ∀ a, Q a → Steadily macros (f a) R) : Steadily macros (x >>= f) R :=
  fun names => (hx names).bind fun r hr => hf r.1 hr r.2

theorem imp {Q' : α → Prop} {x : Naming α} (h : Steadily macros x Q) (hQ : ∀ a, Q a → Q' a) :
    Steadily macros x Q' :=
  fun names => (h names).imp fun r => hQ r.1

theorem reject (form : String) (what : Malformation) (l : Location) :
    Steadily macros (Template.reject form what l : Naming α) Q :=
  fun _ => Eval.Steadily.bind (Q := fun _ => False) .fail fun _ h => h.elim

theorem freshName (base : String) : Steadily macros (Template.freshName base) fun _ => True := by
  refine bind (x := get) (Q := fun _ => True) (fun _ => .pure trivial) fun names _ => ?_
  split
  · exact .pure trivial
  · have generated : Steadily macros (StateT.lift (Eval.generateName (base ++ "__"))) fun _ => True :=
      fun _ => (Eval.Steadily.generateName _).bind fun _ _ => .pure trivial
    refine bind generated fun _ _ => ?_
    exact bind (x := modify _) (Q := fun _ => True) (fun _ => .pure trivial) fun _ _ => .pure trivial

theorem quoteSymbol (name : String) (f : Form) (l : Location) :
    Steadily macros (Template.quoteSymbol name l) (Builds macros f) := by
  have quoted (name : String) : Builds macros f (.call "quote" [.symbol name l] l) := by
    refine .call (by decide) l (fun r hr => ?_) (Nat.zero_le _)
    rw [List.mem_singleton.1 hr]
    exact .leaf _ _
  unfold Template.quoteSymbol
  cases freshBase? name with
  | none => exact .pure (quoted _)
  | some base => exact bind (freshName base) fun _ _ => .pure (quoted _)

mutual

theorem builderWith {again : Form → Naming Form} {k : Nat}
    (ha : ∀ f, f.PlainlyHeaded macros → f.templates < k → Steadily macros (again f) (Builds macros f)) :
    (f : Form) → f.Ready macros k → Steadily macros (Template.builderWith again f) (Builds macros f)
  | .leaf d l, h => by
    cases d with
    | symbol name =>
      rw [Template.builderWith]
      exact quoteSymbol name _ l
    | _ =>
      rw [Template.builderWith]
      · exact .pure (.refl h.heads)
      · exact fun name h => by cases h
  | .group .list [] l, _ => by
    rw [Template.builderWith]
    exact .pure (.call (by decide) l (fun _ hr => absurd hr List.not_mem_nil) (Nat.zero_le _))
  | .group .list [head, inner] l, h => by
    have parts := partsWith ha l [head, inner] h.items
    have inside : inner ∈ (Form.list [head, inner] l).items := by simp [Form.items]
    have nested := builderWith ha inner (h.items inner inside)
    rw [Template.builderWith]
    split
    · exact .pure (.item h.heads inside)
    · exact reject _ _ _
    · next template =>
      have fewer : inner.templates < (Form.list [head, inner] l).templates :=
        Form.templates_lt_of_template inner l (by rw [template]; rfl)
      refine bind nested fun r hr => ?_
      have below := Nat.lt_of_le_of_lt hr.templates fewer
      refine (ha r hr.heads (Nat.lt_of_lt_of_le below h.templates)).imp fun code hc => ?_
      exact ⟨hc.heads, Nat.le_of_lt (Nat.lt_of_le_of_lt hc.templates below)⟩
    · exact bind parts fun _ hp => .pure (.build hp.1 hp.2)
  | .group .list (head :: second :: third :: rest) l, h => by
    have parts := partsWith ha l (head :: second :: third :: rest) h.items
    rw [Template.builderWith]
    · split
      · exact reject _ _ _
      · exact reject _ _ _
      · exact bind parts fun _ hp => .pure (.build hp.1 hp.2)
    · simp
  | .group .list [head] l, h => by
    have parts := partsWith ha l [head] h.items
    rw [Template.builderWith]
    · split
      · exact reject _ _ _
      · exact reject _ _ _
      · exact bind parts fun _ hp => .pure (.build hp.1 hp.2)
    · simp
  | .group .vector items l, h => by
    rw [Template.builderWith]
    · exact bind (partsWith ha l items h.items) fun _ hp => .pure (.build hp.1 hp.2)
    all_goals simp
  | .group .map items l, h => by
    rw [Template.builderWith]
    · exact bind (partsWith ha l items h.items) fun _ hp => .pure (.build hp.1 hp.2)
    all_goals simp
  | .group .set items l, h => by
    rw [Template.builderWith]
    · exact bind (partsWith ha l items h.items) fun _ hp => .pure (.build hp.1 hp.2)
    all_goals simp

theorem partsWith {again : Form → Naming Form} {k : Nat}
    (ha : ∀ f, f.PlainlyHeaded macros → f.templates < k → Steadily macros (again f) (Builds macros f))
    (l : Location) :
    (fs : List Form) → (∀ f ∈ fs, f.Ready macros k) →
      Steadily macros (Template.partsWith again l fs) fun parts =>
        (∀ r ∈ parts, r.PlainlyHeaded macros) ∧ Form.templatesIn parts ≤ Form.templatesIn fs
  | [], _ => by
    rw [Template.partsWith]
    exact .pure ⟨fun _ h => absurd h List.not_mem_nil, Nat.le_refl _⟩
  | item :: rest, h => by
    obtain ⟨hi, hr⟩ := List.forall_mem_cons.1 h
    rw [Template.partsWith]
    have others {first : Form} (hf : Builds macros item first) : Steadily macros
        (do return first :: (← Template.partsWith again l rest)) fun parts =>
          (∀ r ∈ parts, r.PlainlyHeaded macros) ∧
            Form.templatesIn parts ≤ Form.templatesIn (item :: rest) := by
      refine bind (partsWith ha l rest hr) fun parts hp => .pure ?_
      exact ⟨List.forall_mem_cons.2 ⟨hf.heads, hp.1⟩, Nat.add_le_add hf.templates hp.2⟩
    split
    · next head inner _ items => exact others (.item hi.heads (by simp [items]))
    · next head inner _ items =>
      have spliced := Builds.item hi.heads (g := inner) (by simp [items])
      exact others (spliced.call_one (by decide) _)
    · exact bind (builderWith ha item hi) fun _ hb => others (hb.call_one (by decide) _)

end

theorem builderWithin (k : Nat) (f : Form) (h : f.Ready macros k) :
    Steadily macros (Template.builderWithin k f) (Builds macros f) := by
  induction k generalizing f with
  | zero => exact builderWith (k := 0) (fun _ _ h => absurd h (Nat.not_lt_zero _)) f h
  | succ k ih => exact builderWith (fun g hg hk => ih g ⟨hg, Nat.le_of_lt_succ hk⟩) f h

end Steadily

/-- **A template is replaced by code with fewer templates.** -/
theorem builder_steadily {f : Form} (h : f.PlainlyHeaded macros) :
    Eval.Steadily macros (builder f) (Builds macros f) :=
  (Steadily.builderWithin f.templates f ⟨h, Nat.le_refl _⟩ []).bind fun _ hr => .pure hr

end Template

/-! ### Parts of expanded code -/

namespace Form

variable {macros : String → Option Value} {locals : List String}

theorem macroCall?_of_special {f : Form} {kind : SpecialForm} (h : f.special? = some kind) :
    f.macroCall? macros locals = none := by
  obtain ⟨name, hn, hk⟩ := Option.bind_eq_some_iff.1 h
  unfold macroCall?
  rw [hn]
  dsimp only
  rw [hk]
  rfl

theorem macros_of_macroCall? {f : Form} {name : String} {v : Value}
    (h : f.macroCall? macros locals = some (name, v)) : macros name = some v := by
  unfold macroCall? at h
  split at h
  · cases h
  · split at h
    · cases h
    · obtain ⟨w, hw, e⟩ := Option.map_eq_some_iff.1 h
      cases e
      exact hw

/-- All pieces of code are expanded, each where its names and `locals` are bound. -/
def AllExpanded (macros : String → Option Value) (locals : List String) (parts : List (List String × Form)) :
    Prop :=
  ∀ e ∈ parts, e.2.Expanded macros (e.1 ++ locals)

theorem AllExpanded.nil : AllExpanded macros locals [] := fun e he => by cases he

theorem AllExpanded.append {parts parts' : List (List String × Form)} (h : AllExpanded macros locals parts)
    (h' : AllExpanded macros locals parts') : AllExpanded macros locals (parts ++ parts') :=
  List.forall_mem_append.2 ⟨h, h'⟩

/-- A list that is no special form and calls no macro is expanded if its items are. -/
theorem Expanded.call_intro {head : Form} {rest : List Form} {l : Location}
    (hk : head.symbolName?.bind SpecialForm.ofName? = none)
    (call : (Form.list (head :: rest) l).macroCall? macros locals = none)
    (h : AllExpanded macros locals ((head :: rest).map (([] : List String), ·))) :
    (Form.list (head :: rest) l).Expanded macros locals := by
  refine .intro ?_ call ?_
  · rw [special?_list, hk]
    exact fun h => by cases h
  · unfold codeParts
    dsimp only
    rwa [hk]

/-- A special form is expanded if the code in it is. -/
theorem Expanded.special_intro {kind : SpecialForm} {head : Form} {rest : List Form} {l : Location}
    (hk : head.symbolName?.bind SpecialForm.ofName? = some kind) (template : kind ≠ .template)
    (h : AllExpanded macros locals (specialParts kind head rest)) :
    (Form.list (head :: rest) l).Expanded macros locals := by
  have special := (special?_list head rest l).trans hk
  refine .intro (fun e => template ?_) (macroCall?_of_special special) ?_
  · rw [special] at e
    exact Option.some.inj e
  · unfold codeParts
    dsimp only
    rwa [hk]

/-- What is code of its own in a `try` can be a clause of it. -/
theorem Expanded.attemptParts {f : Form} (h : f.Expanded macros locals) :
    AllExpanded macros locals f.attemptParts := by
  intro e he
  fun_cases Form.attemptParts f with
  | case1 head type binding body l handler =>
    rw [Form.attemptParts, if_pos handler] at he
    obtain ⟨g, hg, rfl⟩ := List.mem_map.1 he
    have parts := h.parts
    unfold codeParts specialParts at parts
    dsimp only at parts
    rw [eq_of_beq handler] at parts
    have inside : g ∈ head :: type :: binding :: body := by simp [hg]
    exact (parts ([], g) (List.mem_map_of_mem inside)).mono (List.subset_append_right _ _)
  | case2 head type binding body l plain =>
    rw [Form.attemptParts, if_neg plain] at he
    rw [List.mem_singleton.1 he]
    exact h
  | case3 f other =>
    rw [Form.attemptParts] at he
    · rw [List.mem_singleton.1 he]
      exact h
    · exact other

/-- What is known of the expansion `g` of a form `f`: it is expanded, and what cannot turn into a symbol does
not. -/
structure ExpandsTo (macros : String → Option Value) (locals : List String) (f g : Form) : Prop where
  expanded : g.Expanded macros locals
  name : f.IsPlainHead macros → g.symbolName? = f.symbolName?

theorem AllExpanded.parts {fs gs : List Form} {names around : List String} (hl : locals = names ++ around)
    (h : List.Forall₂ (ExpandsTo macros locals) fs gs) :
    AllExpanded macros around (gs.map (names, ·)) := by
  subst hl
  intro e he
  obtain ⟨g, hg, rfl⟩ := List.mem_map.1 he
  obtain ⟨f, -, hfg⟩ := exists_of_forall₂_right h hg
  exact hfg.expanded

/-- The same form, or two lists. -/
def Alike (f g : Form) : Prop := g = f ∨ ∃ xs ys l, f = .list xs l ∧ g = .list ys l

theorem Alike.isString_eq {f g : Form} (h : f.Alike g) : g.isString = f.isString := by
  rcases h with rfl | ⟨xs, ys, l, rfl, rfl⟩ <;> rfl

theorem Alike.symbolName?_eq {f g : Form} (h : f.Alike g) : g.symbolName? = f.symbolName? := by
  rcases h with rfl | ⟨xs, ys, l, rfl, rfl⟩ <;> rfl

/-- Bodies of functions of the same shape. -/
structure SameShape (fs gs : List Form) : Prop where
  length : gs.length = fs.length
  head : Option.Rel Alike fs.head? gs.head?

theorem SameShape.isEmpty_eq {fs gs : List Form} (h : SameShape fs gs) : gs.isEmpty = fs.isEmpty := by
  rw [Bool.eq_iff_iff, List.isEmpty_iff_length_eq_zero, List.isEmpty_iff_length_eq_zero, h.length]

theorem SameShape.exists_cons {f : Form} {fs gs : List Form} (h : SameShape (f :: fs) gs) :
    ∃ g gs', gs = g :: gs' ∧ f.Alike g ∧ gs'.isEmpty = fs.isEmpty := by
  obtain ⟨length, head⟩ := h
  cases gs with
  | nil => cases head
  | cons g gs =>
    cases head with
    | some alike =>
      refine ⟨g, gs, rfl, alike, ?_⟩
      rw [List.length_cons, List.length_cons, Nat.succ.injEq] at length
      rw [Bool.eq_iff_iff, List.isEmpty_iff_length_eq_zero, List.isEmpty_iff_length_eq_zero, length]

/-- Only clauses replace clauses. -/
theorem SameShape.functionParts_eq {fs gs : List Form} (h : SameShape fs gs)
    (hf : ∀ params l body, fs = .vector params l :: body → False) :
    functionParts gs = gs.flatMap overloadParts := by
  rw [functionParts]
  rintro params l body rfl
  obtain ⟨-, head⟩ := h
  cases fs with
  | nil => cases head
  | cons f fs =>
    cases head with
    | some alike =>
      rcases alike with rfl | ⟨_, _, _, -, e⟩
      · exact hf _ _ _ rfl
      · cases e

/-! ### Functions -/

section

variable {head first name doc : Form} {more gs : List Form}

theorem AllExpanded.function_named {name : String} (named : first.symbolName? = some name)
    (h : AllExpanded macros (name :: locals) (functionParts gs)) :
    AllExpanded macros locals (specialParts .function head (first :: gs)) := by
  unfold specialParts
  dsimp only
  rw [named]
  refine List.forall_mem_map.2 fun e he => ?_
  rw [List.append_assoc]
  exact h e he

theorem AllExpanded.function (anonymous : first.symbolName? = none) (shape : SameShape (first :: more) gs)
    (h : AllExpanded macros locals (functionParts gs)) :
    AllExpanded macros locals (specialParts .function head gs) := by
  obtain ⟨g, gs, rfl, alike, -⟩ := shape.exists_cons
  unfold specialParts
  dsimp only
  rwa [alike.symbolName?_eq, anonymous]

theorem AllExpanded.macroDefinition_documented (documented : (doc.isString && !more.isEmpty) = true)
    (shape : SameShape more gs) (h : AllExpanded macros locals (functionParts gs)) :
    AllExpanded macros locals (specialParts .macroDefinition head (name :: doc :: gs)) := by
  unfold specialParts
  dsimp only
  rwa [shape.isEmpty_eq, if_pos documented]

theorem AllExpanded.macroDefinition (undocumented : ¬ (doc.isString && !more.isEmpty) = true)
    (shape : SameShape (doc :: more) gs) (h : AllExpanded macros locals (functionParts gs)) :
    AllExpanded macros locals (specialParts .macroDefinition head (name :: gs)) := by
  obtain ⟨g, gs, rfl, alike, empty⟩ := shape.exists_cons
  unfold specialParts
  dsimp only
  rwa [alike.isString_eq, empty, if_neg undocumented]

end

end Form

/-! ### Expansion of the parts -/

namespace Eval

open Form (SameShape AllExpanded)

variable {macros : String → Option Value} {hooks : ExpansionHooks} {k n : Nat}

/-- The expansion of forms smaller than `n`, with at most `k` templates, leaves the macros alone and makes
expanded code. -/
def SteadyBelow (macros : String → Option Value) (hooks : ExpansionHooks) (k n : Nat) : Prop :=
  ∀ (f : Form) (p : ExpansionPlace), sizeOf f < n → f.Ready macros k →
    Steadily macros (expandWith hooks p f) (f.ExpandsTo macros p.locals)

section

variable (ih : SteadyBelow macros hooks k n)
include ih

theorem expandAll_steadily (p : ExpansionPlace) (fs : List Form) (hn : sizeOf fs ≤ n)
    (hf : ∀ f ∈ fs, f.Ready macros k) :
    Steadily macros (expandAll hooks p fs) (List.Forall₂ (Form.ExpandsTo macros p.locals) fs) := by
  induction fs with
  | nil =>
    rw [expandAll]
    exact .pure .nil
  | cons f fs ihs =>
    rw [List.cons.sizeOf_spec] at hn
    obtain ⟨hf, hfs⟩ := List.forall_mem_cons.1 hf
    rw [expandAll]
    exact (ih f p (by omega) hf).bind fun g hg => (ihs (by omega) hfs).bind fun gs hgs => .pure (.cons hg hgs)

theorem expandOverloadClauses_steadily (p : ExpansionPlace) (fs : List Form) (hn : sizeOf fs ≤ n)
    (hf : ∀ f ∈ fs, f.Ready macros k) :
    Steadily macros (expandOverloadClauses hooks p fs) fun gs => SameShape fs gs ∧
      AllExpanded macros p.locals (gs.flatMap Form.overloadParts) := by
  induction fs with
  | nil =>
    rw [expandOverloadClauses]
    exact .pure ⟨⟨rfl, .none⟩, .nil⟩
  | cons clause fs ihs =>
    rw [List.cons.sizeOf_spec] at hn
    obtain ⟨hc, hfs⟩ := List.forall_mem_cons.1 hf
    have rest := ihs (by omega) hfs
    fun_cases Form.overloadParts clause with
    | case1 params body l =>
      simp only [Form.group.sizeOf_spec, List.cons.sizeOf_spec] at hn
      have body := expandAll_steadily ih ((p.within l).bindingParameters params) body (by omega)
        fun f hf => hc.items f (List.mem_cons_of_mem _ hf)
      rw [expandOverloadClauses]
      refine body.bind fun body hb => rest.bind fun gs hgs => .pure ⟨⟨?_, .some (.inr ?_)⟩, ?_⟩
      · exact congrArg (· + 1) hgs.1.length
      · exact ⟨_, _, _, rfl, rfl⟩
      · exact .append (.parts rfl hb) hgs.2
    | case2 clause other =>
      have none : clause.overloadParts = [] := by
        rw [Form.overloadParts]
        exact other
      rw [expandOverloadClauses]
      · refine rest.bind fun gs hgs => .pure ⟨⟨congrArg (· + 1) hgs.1.length, .some (.inl rfl)⟩, ?_⟩
        rw [List.flatMap_cons, none]
        exact hgs.2
      · exact other

theorem expandOverloads_steadily (p : ExpansionPlace) (fs : List Form) (hn : sizeOf fs ≤ n)
    (hf : ∀ f ∈ fs, f.Ready macros k) :
    Steadily macros (expandOverloads hooks p fs) fun gs => SameShape fs gs ∧
      AllExpanded macros p.locals (Form.functionParts gs) := by
  unfold expandOverloads
  split
  · next params l body =>
    rw [List.cons.sizeOf_spec] at hn
    have body := expandAll_steadily ih (p.bindingParameters (.vector params l)) body (by omega)
      fun f h => hf f (List.mem_cons_of_mem _ h)
    refine body.bind fun body hb => .pure ?_
    exact ⟨⟨congrArg (· + 1) hb.length_eq.symm, .some (.inl rfl)⟩, AllExpanded.parts rfl hb⟩
  · next other =>
    refine (expandOverloadClauses_steadily ih p fs hn hf).imp fun gs hgs => ⟨hgs.1, ?_⟩
    rw [hgs.1.functionParts_eq other]
    exact hgs.2

theorem expandPairs_steadily {locals : List String} : (bound : List String) → (p : ExpansionPlace) →
    p.locals = bound ++ locals → (fs : List Form) → sizeOf fs ≤ n → (∀ f ∈ fs, f.Ready macros k) →
    Steadily macros (expandPairs hooks p fs) fun r => r.2.locals = Form.boundNames bound r.1 ++ locals ∧
      AllExpanded macros locals (Form.valueParts bound r.1)
  | bound, p, hp, [], _, _ => by
    rw [expandPairs]
    exact .pure ⟨hp, .nil⟩
  | bound, p, hp, [name], _, _ => by
    rw [expandPairs]
    refine .pure ⟨?_, .nil⟩
    rw [Form.boundNames, List.append_assoc, ← hp]
    rfl
  | bound, p, hp, name :: value :: rest, hn, hf => by
    simp only [List.cons.sizeOf_spec] at hn
    rw [expandPairs]
    refine (ih value p (by omega) (hf value (by simp))).bind fun value hv => ?_
    have rest := expandPairs_steadily (name.symbolName?.toList ++ bound)
      (p.binding name.symbolName?.toList) (by rw [List.append_assoc, ← hp]; rfl) rest (by omega)
      fun f h => hf f (by simp [h])
    exact rest.bind fun r hr => .pure ⟨hr.1, List.forall_mem_cons.2 ⟨hp ▸ hv.expanded, hr.2⟩⟩

theorem expandClauses_steadily (p : ExpansionPlace) (fs : List Form) (hn : sizeOf fs ≤ n)
    (hf : ∀ f ∈ fs, f.Ready macros k) :
    Steadily macros (expandClauses hooks p fs) fun gs =>
      AllExpanded macros p.locals (gs.flatMap Form.attemptParts) := by
  induction fs with
  | nil =>
    rw [expandClauses]
    exact .pure .nil
  | cons clause fs ihs =>
    rw [List.cons.sizeOf_spec] at hn
    obtain ⟨hc, hfs⟩ := List.forall_mem_cons.1 hf
    have others {g : Form} (hg : AllExpanded macros p.locals g.attemptParts) :
        Steadily macros (do return g :: (← expandClauses hooks p fs)) fun gs =>
          AllExpanded macros p.locals (gs.flatMap Form.attemptParts) :=
      (ihs (by omega) hfs).bind fun gs hgs => .pure (List.forall_mem_append.2 ⟨hg, hgs⟩)
    have whole : Steadily macros (expandWith hooks p clause) _ := ih clause p (by omega) hc
    fun_cases Form.attemptParts clause with
    | case1 head type binding body l handler =>
      simp only [Form.group.sizeOf_spec, List.cons.sizeOf_spec] at hn
      have body := expandAll_steadily ih ((p.within l).binding binding.symbolName?.toList) body
        (by omega) fun f hf => hc.items f (by simp [Form.items, hf])
      rw [expandClauses]
      dsimp only
      rw [if_pos handler]
      refine body.bind fun body hb => others ?_
      rw [Form.attemptParts, if_pos handler]
      exact AllExpanded.parts rfl hb
    | case2 head type binding body l plain =>
      rw [expandClauses]
      dsimp only
      rw [if_neg plain]
      exact whole.bind fun g hg => others hg.expanded.attemptParts
    | case3 clause other =>
      rw [expandClauses]
      · exact whole.bind fun g hg => others hg.expanded.attemptParts
      · exact other

end

/-- The two ways to go on with the parts of a form leave the macros alone and make expanded code, with
templates that hold fewer than `k` others. -/
structure HooksSteady (macros : String → Option Value) (hooks : ExpansionHooks) (k : Nat) : Prop where
  onMacro : ∀ p name v f, f.PlainlyHeaded macros → f.macroCall? macros p.locals = some (name, v) →
    Steadily macros (hooks.onMacro p name v f) (Form.Expanded macros p.locals)
  onTemplate : ∀ p f, f.PlainlyHeaded macros → f.templates < k →
    Steadily macros (hooks.onTemplate p f) (Form.Expanded macros p.locals)

theorem macroCalled?_steadily (p : ExpansionPlace) (f : Form) :
    Steadily macros (macroCalled? p f) (· = f.macroCall? macros p.locals) := by
  intro s found t hs h
  rw [macroCalled?_eq, hs.macros] at h
  cases h
  exact ⟨hs, rfl⟩

theorem expandList_steadily (hh : HooksSteady macros hooks k) (ih : SteadyBelow macros hooks k n)
    (p : ExpansionPlace) {head : Form} {rest : List Form} (l : Location) (hn : sizeOf (head :: rest) ≤ n)
    (hf : (Form.list (head :: rest) l).Ready macros k) :
    Steadily macros (expandWith hooks p (.list (head :: rest) l))
      ((Form.list (head :: rest) l).ExpandsTo macros p.locals) := by
  have plain : head.IsPlainHead macros := by
    cases hf.heads with
    | group plain _ => exact plain rfl head rfl
  have all := expandAll_steadily ih (p.within l) _ hn hf.items
  have items : ∀ f ∈ rest, f.Ready macros k := fun f hf' => hf.items f (List.mem_cons_of_mem _ hf')
  rw [List.cons.sizeOf_spec] at hn
  unfold expandWith
  dsimp only
  generalize hk : head.symbolName?.bind SpecialForm.ofName? = kind
  have made {kind : SpecialForm} {rest' : List Form}
      (hk : head.symbolName?.bind SpecialForm.ofName? = some kind) (template : kind ≠ .template)
      (h : AllExpanded macros p.locals (Form.specialParts kind head rest')) :
      (Form.list (head :: rest) l).ExpandsTo macros p.locals (.list (head :: rest') l) :=
    ⟨.special_intro hk template h, fun _ => rfl⟩
  cases kind with
  | none =>
    refine (macroCalled?_steadily (p.within l) _).bind fun found hfound => ?_
    cases found with
    | none =>
      refine all.bind fun gs hgs => .pure ⟨?_, fun _ => rfl⟩
      cases hgs with
      | @cons _ g _ gs hg hgs =>
        have name := hg.name plain
        refine .call_intro (by rw [name, hk]) ?_ (AllExpanded.parts rfl (.cons hg hgs))
        unfold Form.macroCall?
        rw [Form.headSymbol?_list, name, ← Form.headSymbol?_list head rest l]
        exact hfound.symm
    | some x =>
      refine (hh.onMacro (p.within l) x.1 x.2 _ hf.heads hfound.symm).imp fun g hg => ?_
      refine ⟨hg, fun plain => ?_⟩
      have none := plain.2 p.locals
      rw [show Form.macroCall? macros p.locals _ = some x from hfound.symm] at none
      cases none
  | some kind => cases kind with
    | quote => exact .pure (made hk (by decide) .nil)
    | template =>
      dsimp only
      split
      · next inner =>
        have fewer := Form.templates_lt_of_template inner l hk
        refine (hh.onTemplate _ inner (hf.heads.items _ (by simp [Form.items]))
          (Nat.lt_of_lt_of_le fewer hf.templates)).imp fun g hg => ⟨hg, fun plain => ?_⟩
        exact absurd ((Form.special?_list head [inner] l).trans hk) plain.1
      · exact .fail
    | function => cases rest with
      | nil => exact .pure (made hk (by decide) .nil)
      | cons first more =>
        rw [List.cons.sizeOf_spec] at hn
        dsimp only
        cases named : first.symbolName? with
        | some name =>
          have bodies := expandOverloads_steadily ih ((p.within l).binding [name]) more (by omega)
            fun f h => items f (List.mem_cons_of_mem _ h)
          exact bodies.bind fun gs hgs => .pure (made hk (by decide) (.function_named named hgs.2))
        | none =>
          have bodies := expandOverloads_steadily ih (p.within l) (first :: more)
            (by rw [List.cons.sizeOf_spec]; omega) items
          exact bodies.bind fun gs hgs => .pure (made hk (by decide) (.function named hgs.1 hgs.2))
    | macroDefinition => cases rest with
      | nil => exact .pure (made hk (by decide) .nil)
      | cons name rest => cases rest with
        | nil => exact .pure (made hk (by decide) .nil)
        | cons doc more =>
          have items : ∀ f ∈ doc :: more, f.Ready macros k := fun f h => items f (List.mem_cons_of_mem _ h)
          simp only [List.cons.sizeOf_spec] at hn
          dsimp only
          split
          · next documented =>
            have bodies := expandOverloads_steadily ih (p.within l) more (by omega)
              fun f h => items f (List.mem_cons_of_mem _ h)
            refine bodies.bind fun gs hgs => .pure (made hk (by decide) ?_)
            exact .macroDefinition_documented documented hgs.1 hgs.2
          · next undocumented =>
            have bodies := expandOverloads_steadily ih (p.within l) (doc :: more)
              (by rw [List.cons.sizeOf_spec]; omega) items
            refine bodies.bind fun gs hgs => .pure (made hk (by decide) ?_)
            exact .macroDefinition undocumented hgs.1 hgs.2
    | letBinding | loop => cases rest with
      | nil => exact .pure (made hk (by decide) .nil)
      | cons bindings body =>
        rw [List.cons.sizeOf_spec] at hn
        have around := expandAll_steadily ih (p.within l) body (by omega)
          fun f h => items f (List.mem_cons_of_mem _ h)
        cases bindings with
        | leaf d at' => exact around.bind fun gs hgs => .pure (made hk (by decide) (.parts rfl hgs))
        | group b pairs at' => cases b with
          | vector =>
            rw [Form.group.sizeOf_spec] at hn
            have vector : ∀ f ∈ pairs, f.Ready macros k := (items _ (List.mem_cons_self ..)).items
            refine (expandPairs_steadily ih [] (p.within l) rfl pairs (by omega) vector).bind
              fun r hr => ?_
            refine (expandAll_steadily ih r.2 body (by omega) fun f h => items f (List.mem_cons_of_mem _ h)).bind
              fun gs hgs => .pure (made hk (by decide) ?_)
            exact .append hr.2 (.parts hr.1 hgs)
          | _ => exact around.bind fun gs hgs => .pure (made hk (by decide) (.parts rfl hgs))
    | attempt =>
      have clauses := expandClauses_steadily ih (p.within l) rest (by omega) items
      exact clauses.bind fun gs hgs => .pure (made hk (by decide) hgs)
    | _ =>
      refine all.bind fun gs hgs => .pure ⟨?_, fun _ => rfl⟩
      cases hgs with
      | @cons _ g _ gs hg hgs =>
        have name := hg.name plain
        have hk := (congrArg (Option.bind · SpecialForm.ofName?) name).trans hk
        exact .special_intro hk (by decide) (.parts rfl (.cons hg hgs))

/-- **Expansion makes expanded code.** -/
theorem expandWith_steadily (hh : HooksSteady macros hooks k) (p : ExpansionPlace) (f : Form)
    (hf : f.Ready macros k) : Steadily macros (expandWith hooks p f) (f.ExpandsTo macros p.locals) := by
  induction hn : sizeOf f using Nat.strongRecOn generalizing p f with
  | _ n ih =>
    subst hn
    have ih : SteadyBelow macros hooks k (sizeOf f) := fun g p hn hg => ih _ hn p g hg rfl
    cases f with
    | leaf d l =>
      rw [expandWith]
      exact .pure ⟨.intro (fun h => by cases h) rfl AllExpanded.nil, fun _ => rfl⟩
    | group b items l =>
      have hn : sizeOf items ≤ sizeOf (Form.group b items l) := by
        rw [Form.group.sizeOf_spec]
        omega
      have all := expandAll_steadily ih (p.within l) _ hn hf.items
      cases b with
      | list => cases items with
        | nil =>
          rw [expandWith]
          exact .pure ⟨.intro (fun h => by cases h) rfl AllExpanded.nil, fun _ => rfl⟩
        | cons head rest => exact expandList_steadily hh ih p l hn hf
      | vector | map | set =>
        rw [expandWith]
        · exact all.bind fun gs hgs => .pure ⟨.intro (fun h => by cases h) rfl (AllExpanded.parts rfl hgs), fun _ => rfl⟩
        all_goals simp

theorem expandWithin_steadily {onMacro : ExpansionPlace → String → Value → Form → Eval Form}
    (hm : ∀ p name v f, f.PlainlyHeaded macros → f.macroCall? macros p.locals = some (name, v) →
      Steadily macros (onMacro p name v f) (Form.Expanded macros p.locals))
    (n : Nat) (p : ExpansionPlace) (f : Form) (hf : f.Ready macros n) :
    Steadily macros (expandWithin onMacro n p f) (Form.Expanded macros p.locals) := by
  induction n generalizing p f with
  | zero =>
    have hh : HooksSteady macros ⟨onMacro, fun _ t => Template.builder t⟩ 0 :=
      ⟨hm, fun _ _ _ h => absurd h (Nat.not_lt_zero _)⟩
    exact (expandWith_steadily hh p f hf).imp fun _ hg => hg.expanded
  | succ n ih =>
    have hh : HooksSteady macros
        ⟨onMacro, fun p t => do expandWithin onMacro n p (← Template.builder t)⟩ (n + 1) :=
      ⟨hm, fun p t ht fewer => (Template.builder_steadily ht).bind fun code hc =>
        ih p code ⟨hc.heads, Nat.le_trans hc.templates (Nat.le_of_lt_succ fewer)⟩⟩
    exact (expandWith_steadily hh p f hf).imp fun _ hg => hg.expanded

/-- Expanding a macro call once leaves the macros as they are. If no list in the call is headed by a macro
call or a template, none is in the code it makes. -/
def SteadyMacros (macros : String → Option Value) (call : Caller) : Prop :=
  ∀ remaining p name v f, f.PlainlyHeaded macros → f.macroCall? macros p.locals = some (name, v) →
    Steadily macros (expandCall call remaining p name v f) (Form.PlainlyHeaded macros)

theorem expandAt_steadily {call : Caller} (steady : SteadyMacros macros call) (n : Nat) (p : ExpansionPlace)
    (f : Form) (hf : f.PlainlyHeaded macros) :
    Steadily macros (expandAt call n p f) (Form.Expanded macros p.locals) := by
  induction n generalizing p f with
  | zero =>
    rw [expandAt]
    refine expandWithin_steadily (fun p name v f _ _ => ?_) _ p f ⟨hf, Nat.le_refl _⟩
    intro s g t _ h
    cases h
  | succ n ih =>
    rw [expandAt]
    refine expandWithin_steadily (fun p name v f heads called => ?_) _ p f ⟨hf, Nat.le_refl _⟩
    exact (steady (n + 1) p name v f heads called).bind fun g hg => ih p g hg

/-- Macros that are steady themselves are steady when they are called by expansion. -/
theorem SteadyMacros.of_call {call : Caller} (h : ∀ name v args site, macros name = some v →
    Steadily macros (do formOfValue (← attributed site [] (call v args))) (Form.PlainlyHeaded macros)) :
    SteadyMacros macros call := by
  intro remaining p name v f _ called
  have transformed (args : List Value) (site : Location) : Steadily macros
      (do return placed site (← formOfValue (← attributed site [] (call v args))))
      (Form.PlainlyHeaded macros) := by
    rw [← bind_assoc]
    exact (h name v args site (Form.macros_of_macroCall? called)).bind fun g hg => .pure (hg.placed site)
  unfold expandCall
  dsimp only
  split
  · exact .get fun _ => .bind (Q := fun _ => False) .fail fun _ h => h.elim
  · exact (Steadily.valuesOfForms _).andThen fun args => transformed args _

/-- Macros that vanish are steady. -/
example : SteadyMacros macros fun _ _ => pure .nil := by
  refine .of_call fun name v args site _ s g t hs h => ?_
  change EStateM.Result.ok (Form.leaf .nil .unknown) s = .ok g t at h
  cases h
  exact ⟨hs, .leaf _ _⟩

/-- **What expansion makes is expanded.** -/
theorem expand_expanded {call : Caller} (steady : SteadyMacros macros call) {f : Form}
    (hf : f.PlainlyHeaded macros) : Steadily macros (expand call f) (Form.Expanded macros []) :=
  .withoutCollection (.get fun _ => expandAt_steadily steady _ ⟨.unknown, []⟩ f hf)

/-- **Nothing that is evaluated in expanded code calls a macro that is not hidden there, and expanding the
code again changes nothing.** -/
theorem expand_fixpoint {call : Caller} {s t : Session} (hs : s.HasMacros macros)
    (steady : SteadyMacros macros call) {f g : Form} (hf : f.PlainlyHeaded macros)
    (h : expand call f s = .ok g t) :
    (∀ target isLast g', g.Contains target isLast g' →
      ∃ names, g.HasCode names g' ∧ g'.macroCall? t.macro? names = none) ∧
    ∀ call', expand call' g t = .ok g t := by
  obtain ⟨ht, expanded⟩ := expand_expanded steady hf s g t hs h
  rw [← ht.macros] at expanded
  refine ⟨fun target isLast g' evaluated => ?_, expanded.expand_eq⟩
  obtain ⟨names, code⟩ := evaluated.hasCode
  refine ⟨names, code, ?_⟩
  have call := (expanded.hasCode code).call
  rwa [List.append_nil] at call

/-- This is so from the start, where there are no macros at all. -/
example {limits : Limits} {call : Caller} {f g : Form} {t : Session} (hf : f.PlainlyHeaded fun _ => none)
    (h : expand call f (.fresh limits) = .ok g t) : expand call g t = .ok g t :=
  (expand_fixpoint (Session.hasMacros_fresh limits) (.of_call fun _ _ _ _ h => by cases h) hf h).2 call

end Eval

end TwinLisp
