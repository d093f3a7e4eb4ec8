import TwinLisp.Expansion.Basic
import TwinLisp.Proofs.Special.Accepted

/-!
# Expanded code

In a form there is code at certain places: in the body of a function, for instance, but not in its
parameter vector, and nowhere in a quoted form. Around each of these places the form binds certain names. A
form is expanded if none of the code in it is a template or calls a macro whose name is not bound around the
call.

Expansion goes to all code in a form, and leaves everything else alone. So it leaves an expanded form as it
is.

## Main definitions

* `Session.macro?`: the macros of a session.
* `Form.codeParts`: the code in a form, each piece with the names that the form binds around it.
* `Form.HasCode`: the same for the code in that code, and so on.
* `Form.Expanded`: a form without templates and macro calls.

## Main statements

* `Form.Expanded.hasCode`: all code in an expanded form is expanded.
* `Form.Expanded.mono`: more names around an expanded form hide more macros.
* `Form.Expanded.expandWith_eq`, `Form.Expanded.expand_eq`: expansion leaves an expanded form as it is.
-/

namespace TwinLisp

/-! ### Macro calls -/

/-- The value, if it is a macro. -/
def Heap.macro? (h : Heap) (v : Value) : Option Value :=
  match h.objectOf? v with
  | some (.function f) => if f.isMacro then some v else none
  | _ => none

/-- The macro that a name is bound to at the root. -/
def Session.macro? (s : Session) (name : String) : Option Value :=
  ((s.symbols.find? name).bind s.global?).bind s.heap.macro?

/-- The macro that a form calls where `locals` are bound, with its name. -/
def Form.macroCall? (macros : String → Option Value) (locals : List String) (f : Form) :
    Option (String × Value) :=
  match f.headSymbol? with
  | none => none
  | some name =>
    if (SpecialForm.ofName? name).isSome || locals.contains name then none
    else (macros name).map (name, ·)

theorem Eval.macroCalled?_eq (p : ExpansionPlace) (f : Form) (s : Session) :
    macroCalled? p f s = .ok (f.macroCall? s.macro? p.locals) s := by
  unfold macroCalled? Form.macroCall? Session.macro?
  cases f.headSymbol? with
  | none => rfl
  | some name =>
    dsimp only
    split
    · rfl
    · rw [get_bind]
      cases (s.symbols.find? name).bind s.global? with
      | none => rfl
      | some v =>
        unfold Option.bind Heap.macro?
        dsimp only
        cases s.heap.objectOf? v with
        | none => rfl
        | some o => cases o with
          | function fn =>
            dsimp only
            cases fn.isMacro <;> rfl
          | _ => rfl

theorem Form.headSymbol?_list (head : Form) (rest : List Form) (l : Location) :
    (Form.list (head :: rest) l).headSymbol? = head.symbolName? := by
  cases head with
  | leaf d _ => cases d <;> rfl
  | group => rfl

theorem Form.macroCall?_eq_none_of_subset {macros : String → Option Value} {locals locals' : List String}
    {f : Form} (h : f.macroCall? macros locals = none) (hl : locals ⊆ locals') :
    f.macroCall? macros locals' = none := by
  unfold macroCall? at h ⊢
  cases hn : f.headSymbol? with
  | none => rfl
  | some name =>
    rw [hn] at h
    dsimp only at h ⊢
    split
    · rfl
    · next visible =>
      have visible' : ¬ ((SpecialForm.ofName? name).isSome || locals.contains name) = true := by
        simp only [Bool.or_eq_true, List.contains_iff_mem, not_or] at visible ⊢
        exact ⟨visible.1, fun mem => visible.2 (hl mem)⟩
      rwa [if_neg visible'] at h

/-! ### The code in a form -/

namespace Form

/-- The names in a parameter vector. -/
def parameterNames (params : Form) : List String :=
  (params.items.filterMap symbolName?).filter (· != "&")

/-- The body in a clause of a function. -/
def overloadParts : Form → List (List String × Form)
  | .group .list (params :: body) _ => body.map (params.parameterNames, ·)
  | _ => []

/-- The bodies of a function: either behind one parameter vector, or in clauses. -/
def functionParts : List Form → List (List String × Form)
  | .group .vector params l :: body => body.map ((vector params l).parameterNames, ·)
  | clauses => clauses.flatMap overloadParts

/-- The values in a binding vector, where `bound` stand before it. -/
def valueParts (bound : List String) : List Form → List (List String × Form)
  | [] => []
  | [_] => []
  | name :: value :: rest => (bound, value) :: valueParts (name.symbolName?.toList ++ bound) rest

/-- The names in a binding vector, the last one first, and then `bound`. -/
def boundNames (bound : List String) : List Form → List String
  | [] => bound
  | [name] => name.symbolName?.toList ++ bound
  | name :: _ :: rest => boundNames (name.symbolName?.toList ++ bound) rest

/-- The code in an item of a `try`. -/
def attemptParts : Form → List (List String × Form)
  | .group .list (head :: type :: binding :: body) l =>
    if head.symbolName? == some "catch" then body.map (binding.symbolName?.toList, ·)
    else [([], .list (head :: type :: binding :: body) l)]
  | f => [([], f)]

/-- The code in a special form. Where it is not told otherwise, all items are code. -/
def specialParts (kind : SpecialForm) (head : Form) (rest : List Form) : List (List String × Form) :=
  match kind with
  | .quote | .template => []
  | .function =>
    match rest with
    | [] => []
    | first :: more =>
      match first.symbolName? with
      | some name => (functionParts more).map fun e => (e.1 ++ [name], e.2)
      | none => functionParts (first :: more)
  | .macroDefinition =>
    match rest with
    | _ :: doc :: more =>
      if doc.isString && !more.isEmpty then functionParts more else functionParts (doc :: more)
    | _ => []
  | .letBinding | .loop =>
    match rest with
    | [] => []
    | .group .vector pairs _ :: body => valueParts [] pairs ++ body.map (boundNames [] pairs, ·)
    | _ :: body => body.map ([], ·)
  | .attempt => rest.flatMap attemptParts
  | _ => (head :: rest).map ([], ·)

/-- The code in a form, each piece with the names that the form binds around it. -/
def codeParts : Form → List (List String × Form)
  | .group .list (head :: rest) _ =>
    match head.symbolName?.bind SpecialForm.ofName? with
    | some kind => specialParts kind head rest
    | none => (head :: rest).map ([], ·)
  | f => f.items.map ([], ·)

/-- There is the code `g` in `f`, with names bound around it. -/
inductive HasCode (f : Form) : List String → Form → Prop where
  | self : HasCode f [] f
  | part {names : List String} {g : Form} {e : List String × Form} (h : HasCode f names g)
    (he : e ∈ g.codeParts) : HasCode f (e.1 ++ names) e.2

/-! ### Forms without macro calls -/

/-- There is no template and no call of a macro among the code of the form, where `locals` are bound. -/
inductive Expanded (macros : String → Option Value) : List String → Form → Prop where
  | intro {locals : List String} {f : Form} (special : f.special? ≠ some .template)
    (call : f.macroCall? macros locals = none)
    (parts : ∀ e ∈ f.codeParts, Expanded macros (e.1 ++ locals) e.2) : Expanded macros locals f

namespace Expanded

variable {macros : String → Option Value} {locals : List String} {f g : Form}

theorem call (h : f.Expanded macros locals) : f.macroCall? macros locals = none := by
  cases h
  assumption

theorem parts (h : f.Expanded macros locals) : ∀ e ∈ f.codeParts, e.2.Expanded macros (e.1 ++ locals) := by
  cases h
  assumption

/-- **All code in an expanded form is expanded.** -/
theorem hasCode (h : f.Expanded macros locals) {names : List String} (hg : f.HasCode names g) :
    g.Expanded macros (names ++ locals) := by
  induction hg with
  | self => exact h
  | part _ he ih =>
    rw [List.append_assoc]
    exact ih.parts _ he

/-- **More names around an expanded form hide more macros.** -/
theorem mono (h : f.Expanded macros locals) {locals' : List String} (hl : locals ⊆ locals') :
    f.Expanded macros locals' := by
  induction h generalizing locals' with
  | intro special call _ ih =>
    exact .intro special (macroCall?_eq_none_of_subset call hl) fun e he =>
      ih e he (List.append_subset.2 ⟨List.subset_append_left .., List.subset_append_of_subset_right _ hl⟩)

end Expanded

end Form

/-! ### Expanding expanded code -/

namespace Eval

variable {hooks : ExpansionHooks} {s : Session} {locals : List String}

/-- Expansion leaves a piece of code as it is, wherever its names and `locals` are bound. -/
def Stays (hooks : ExpansionHooks) (s : Session) (locals : List String) (e : List String × Form) : Prop :=
  ∀ p : ExpansionPlace, p.locals = e.1 ++ locals → expandWith hooks p e.2 s = .ok e.2 s

theorem expandAll_eq {p : ExpansionPlace} (names : List String) (hp : p.locals = names ++ locals) :
    {fs : List Form} → (∀ e ∈ fs.map (names, ·), Stays hooks s locals e) →
      expandAll hooks p fs s = .ok fs s
  | [], _ => by
    rw [expandAll]
    rfl
  | f :: fs, h => by
    obtain ⟨hf, hfs⟩ := List.forall_mem_cons.1 h
    rw [expandAll, bind_eq_of_ok (hf p hp), bind_eq_of_ok (expandAll_eq names hp hfs)]
    rfl

theorem expandOverloadClauses_eq {p : ExpansionPlace} (hp : p.locals = locals) :
    {fs : List Form} → (∀ e ∈ fs.flatMap Form.overloadParts, Stays hooks s locals e) →
      expandOverloadClauses hooks p fs s = .ok fs s
  | [], _ => by
    rw [expandOverloadClauses]
    rfl
  | clause :: fs, h => by
    rw [List.flatMap_cons, List.forall_mem_append] at h
    have rest := expandOverloadClauses_eq hp h.2
    have parts := h.1
    clear h
    fun_cases Form.overloadParts clause with
    | case1 params body l =>
      have body := expandAll_eq (p := (p.within l).bindingParameters params) params.parameterNames
        (by rw [← hp]; rfl) parts
      rw [expandOverloadClauses, bind_eq_of_ok body, bind_eq_of_ok rest]
      rfl
    | case2 _ other =>
      rw [expandOverloadClauses, bind_eq_of_ok rest]
      · rfl
      · exact other

theorem expandOverloads_eq {p : ExpansionPlace} (hp : p.locals = locals) {fs : List Form}
    (h : ∀ e ∈ Form.functionParts fs, Stays hooks s locals e) : expandOverloads hooks p fs s = .ok fs s := by
  unfold expandOverloads
  split
  · next params l body =>
    have body := expandAll_eq (p := p.bindingParameters (.vector params l))
      (Form.vector params l).parameterNames (by rw [← hp]; rfl) h
    rw [bind_eq_of_ok body]
    rfl
  · next other =>
    refine expandOverloadClauses_eq hp ?_
    rwa [Form.functionParts] at h
    exact other

theorem expandPairs_eq (bound : List String) {p : ExpansionPlace} (hp : p.locals = bound ++ locals) :
    {fs : List Form} → (∀ e ∈ Form.valueParts bound fs, Stays hooks s locals e) →
      expandPairs hooks p fs s = .ok (fs, ⟨p.cursor, Form.boundNames bound fs ++ locals⟩) s
  | [], _ => by
    rw [expandPairs, Form.boundNames, ← hp]
    rfl
  | [name], _ => by
    rw [expandPairs, Form.boundNames, List.append_assoc, ← hp]
    rfl
  | name :: value :: fs, h => by
    obtain ⟨hv, hfs⟩ := List.forall_mem_cons.1 h
    have rest := expandPairs_eq (name.symbolName?.toList ++ bound) (p := p.binding name.symbolName?.toList)
      (by rw [List.append_assoc, ← hp]; rfl) hfs
    rw [expandPairs, bind_eq_of_ok (hv p hp), bind_eq_of_ok rest]
    rfl

theorem expandClauses_eq {p : ExpansionPlace} (hp : p.locals = locals) :
    {fs : List Form} → (∀ e ∈ fs.flatMap Form.attemptParts, Stays hooks s locals e) →
      expandClauses hooks p fs s = .ok fs s
  | [], _ => by
    rw [expandClauses]
    rfl
  | clause :: fs, h => by
    rw [List.flatMap_cons, List.forall_mem_append] at h
    have rest := expandClauses_eq hp h.2
    have parts := h.1
    clear h
    fun_cases Form.attemptParts clause with
    | case1 head type binding body l handler =>
      rw [Form.attemptParts, if_pos handler] at parts
      have body := expandAll_eq (p := (p.within l).binding binding.symbolName?.toList)
        binding.symbolName?.toList (by rw [← hp]; rfl) parts
      rw [expandClauses]
      dsimp only
      rw [if_pos handler, bind_eq_of_ok body]
      exact bind_eq_of_ok rest
    | case2 head type binding body l plain =>
      rw [Form.attemptParts, if_neg plain] at parts
      have clause := parts ([], _) (List.mem_singleton_self _) p hp
      rw [expandClauses]
      dsimp only
      rw [if_neg plain, bind_eq_of_ok clause]
      exact bind_eq_of_ok rest
    | case3 clause other =>
      rw [Form.attemptParts] at parts
      · have clause := parts ([], _) (List.mem_singleton_self _) p hp
        rw [expandClauses, bind_eq_of_ok clause, bind_eq_of_ok rest]
        · rfl
        · exact other
      · exact other

/-- Expansion leaves a list as it is if it leaves the code in it as it is and there is nothing to do for the
list itself. -/
theorem expandList_eq {p : ExpansionPlace} {head : Form} {rest : List Form} {l : Location}
    (special : (Form.list (head :: rest) l).special? ≠ some .template)
    (call : (Form.list (head :: rest) l).macroCall? s.macro? p.locals = none)
    (h : ∀ e ∈ (Form.list (head :: rest) l).codeParts, Stays hooks s p.locals e) :
    expandWith hooks p (.list (head :: rest) l) s = .ok (.list (head :: rest) l) s := by
  have all (h : ∀ e ∈ (head :: rest).map (([] : List String), ·), Stays hooks s p.locals e) :
      (do return Form.list (← expandAll hooks (p.within l) (head :: rest)) l) s =
        .ok (.list (head :: rest) l) s :=
    bind_eq_of_ok (expandAll_eq (p := p.within l) [] rfl h)
  have called : macroCalled? (p.within l) (.list (head :: rest) l) s = .ok none s := by
    rw [macroCalled?_eq]
    exact congrArg (EStateM.Result.ok · s) call
  rw [Form.special?_list] at special
  unfold Form.codeParts Form.specialParts at h
  unfold expandWith
  dsimp only at h ⊢
  generalize head.symbolName?.bind SpecialForm.ofName? = kind at special h ⊢
  cases kind with
  | none => exact (bind_eq_of_ok called).trans (all h)
  | some kind => cases kind with
    | quote => rfl
    | template => exact absurd rfl special
    | function => cases rest with
      | nil => rfl
      | cons first more =>
        dsimp only at h ⊢
        generalize first.symbolName? = name? at h ⊢
        cases name? with
        | some name =>
          have bodies : expandOverloads hooks ((p.within l).binding [name]) more s = .ok more s := by
            refine expandOverloads_eq rfl fun e he q hq => ?_
            refine h (e.1 ++ [name], e.2) (List.mem_map_of_mem he) q ?_
            exact hq.trans (List.append_assoc e.1 [name] p.locals).symm
          exact bind_eq_of_ok bodies
        | none => exact bind_eq_of_ok (expandOverloads_eq (p := p.within l) rfl h)
    | macroDefinition => cases rest with
      | nil => rfl
      | cons name more => cases more with
        | nil => rfl
        | cons doc more =>
          dsimp only at h ⊢
          split at h
          · next documented =>
            rw [if_pos documented]
            exact bind_eq_of_ok (expandOverloads_eq (p := p.within l) rfl h)
          · next undocumented =>
            rw [if_neg undocumented]
            exact bind_eq_of_ok (expandOverloads_eq (p := p.within l) rfl h)
    | letBinding | loop => cases rest with
      | nil => rfl
      | cons bindings body =>
        have body (h : ∀ e ∈ body.map (([] : List String), ·), Stays hooks s p.locals e) :=
          expandAll_eq (p := p.within l) [] rfl h
        cases bindings with
        | leaf d at' => exact bind_eq_of_ok (body h)
        | group b items at' => cases b with
          | vector =>
            obtain ⟨values, body⟩ := List.forall_mem_append.1 h
            have values := expandPairs_eq [] (p := p.within l) rfl values
            have body :=
              expandAll_eq (p := ⟨(p.within l).cursor, Form.boundNames [] items ++ p.locals⟩) _ rfl body
            exact (bind_eq_of_ok values).trans (bind_eq_of_ok body)
          | _ => exact bind_eq_of_ok (body h)
    | attempt => exact bind_eq_of_ok (expandClauses_eq (p := p.within l) rfl h)
    | _ => exact all h

end Eval

namespace Form.Expanded

variable {s : Session} {f : Form}

/-- **Expansion leaves an expanded form as it is**, whatever it would do with macro calls and templates. -/
theorem expandWith_eq {locals : List String} (h : f.Expanded s.macro? locals) (hooks : Eval.ExpansionHooks)
    (p : ExpansionPlace) (hp : p.locals = locals) : Eval.expandWith hooks p f s = .ok f s := by
  induction h generalizing p with
  | @intro locals f special call _ ih =>
    have stays : ∀ e ∈ f.codeParts, Eval.Stays hooks s p.locals e := fun e he q hq => ih e he q (hp ▸ hq)
    have all {items : List Form} {l : Location} (b : Bracket)
        (h : ∀ e ∈ items.map (([] : List String), ·), Eval.Stays hooks s p.locals e) :
        (do return Form.group b (← Eval.expandAll hooks (p.within l) items) l) s = .ok (.group b items l) s :=
      Eval.bind_eq_of_ok (Eval.expandAll_eq (p := p.within l) [] rfl h)
    cases f with
    | leaf d l =>
      rw [Eval.expandWith]
      rfl
    | group b items l => cases b with
      | list => cases items with
        | nil =>
          rw [Eval.expandWith]
          rfl
        | cons head rest => exact Eval.expandList_eq special (hp ▸ call) stays
      | vector | map | set =>
        rw [Eval.expandWith]
        · exact all _ stays
        all_goals simp

/-- **Expanding expanded code calls no macro and changes nothing.** -/
theorem expand_eq (h : f.Expanded s.macro? []) (call : Caller) : Eval.expand call f s = .ok f s := by
  let t : Session := { s with inhibited := s.inhibited + 1 }
  have within (onMacro : ExpansionPlace → String → Value → Form → Eval Form) (n : Nat) :
      Eval.expandWithin onMacro n ⟨.unknown, []⟩ f t = .ok f t := by
    cases n <;> exact expandWith_eq (s := t) h _ _ rfl
  have expanded (n : Nat) : Eval.expandAt call n ⟨.unknown, []⟩ f t = .ok f t := by
    cases n <;> exact within _ _
  change Eval.always _ (Eval.expandAt call s.limits.macroDepth ⟨.unknown, []⟩ f) t = _
  rw [Eval.always, expanded]
  rfl

end Form.Expanded

end TwinLisp
