import TwinLisp.Expansion.Template
import TwinLisp.Proofs.Text.Numerals

/-!
# Templates, taken apart

A template without another one inside is a tree of leaves and groups, with holes for values, and in groups
also for the items of values. The code that a template stands for is made from the tree by recursion on it,
once it is settled which fresh names replace the names that end in `#`.

## Main definitions

* `Template.Plan` and `Template.Parts`: what templates and their groups are made of.
* `Template.plan?` takes a template apart.
* `Template.Plan.code` is the code that builds it.
* `Template.FreshNames.Since`: names that were generated one after another.

## Main statements

* `Template.FreshNames.Since.base_eq`: no fresh name replaces two names.
* `Template.Plan.builder_eq`: the code of a template is that of its plan.
* `Template.malformed_of_plan?_eq_none`: a template without others that has no plan is malformed.
-/

namespace TwinLisp.Template

mutual

/-- What a template is made of. -/
inductive Plan where
  /-- A leaf; a symbol may ask for a fresh name. -/
  | leaf (d : Leaf) (l : Location)
  /-- `~e` -/
  | hole (e : Form)
  | group (b : Bracket) (parts : Parts) (l : Location)

/-- What a group in a template is made of. -/
inductive Parts where
  | nil
  /-- One item, which stands at `l`. -/
  | item (p : Plan) (l : Location) (rest : Parts)
  /-- `~@e` -/
  | splice (e : Form) (rest : Parts)

end

mutual

/-- The plan of a template, unless the template is malformed or has another one inside. -/
def plan? : Form → Option Plan
  | .leaf d l => some (.leaf d l)
  | .group .list [] l => some (.group .list .nil l)
  | .group .list [head, inner] l =>
    match head.symbolName? with
    | some "unquote" => some (.hole inner)
    | some "unquote-splicing" => none
    | some "syntax-quote" => none
    | _ => (parts? l [head, inner]).map (.group .list · l)
  | .group .list (head :: rest) l =>
    match head.symbolName? with
    | some "unquote" => none
    | some "unquote-splicing" => none
    | _ => (parts? l (head :: rest)).map (.group .list · l)
  | .group b items l => (parts? l items).map (.group b · l)

/-- The plan of the items of a group at `l`. -/
def parts? (l : Location) : List Form → Option Parts
  | [] => some .nil
  | item :: rest => do
    let more ← parts? l rest
    match item.headSymbol?, item.items with
    | some "unquote-splicing", [_, inner] => return .splice inner more
    | some "unquote", [_, inner] => return .item (.hole inner) (item.location.orElse l) more
    | _, _ => return .item (← plan? item) (item.location.orElse l) more

end

mutual

/-- The code that builds a template, where `name` gives the names of its symbols. -/
def Plan.code (name : String → String) : Plan → Form
  | .leaf (.symbol text) l => .call "quote" [.symbol (name text) l] l
  | .leaf d l => .leaf d l
  | .hole e => e
  | .group .list .nil l => .call "list" [] l
  | .group b parts l => build b (parts.codes name) l

/-- The code for the sequences that the parts of a group contribute. -/
def Parts.codes (name : String → String) : Parts → List Form
  | .nil => []
  | .item p l rest => .call "list" [p.code name] l :: rest.codes name
  | .splice e rest => e :: rest.codes name

end

mutual

/-- The expressions in a template, from left to right. -/
def Plan.expressions : Plan → List Form
  | .leaf _ _ => []
  | .hole e => [e]
  | .group _ parts _ => parts.expressions

/-- The expressions in the parts of a group. -/
def Parts.expressions : Parts → List Form
  | .nil => []
  | .item plan _ rest => plan.expressions ++ rest.expressions
  | .splice e rest => e :: rest.expressions

end

mutual

/-- The names in a template that fresh names replace, without their final `#`. -/
def Plan.bases : Plan → List String
  | .leaf (.symbol text) _ => (freshBase? text).toList
  | .leaf _ _ => []
  | .hole _ => []
  | .group _ parts _ => parts.bases

/-- The names in the parts of a group that fresh names replace. -/
def Parts.bases : Parts → List String
  | .nil => []
  | .item p _ rest => p.bases ++ rest.bases
  | .splice _ rest => rest.bases

end

/-! ### Fresh names -/

namespace FreshNames

/-- The fresh name with the given number. -/
def numbered (base : String) (n : Nat) : String := base ++ "__" ++ toString n ++ "__auto__"

/-- The names were generated one after another, when `n` had been generated before. -/
inductive Since (n : Nat) : FreshNames → Prop where
  | nil : Since n []
  | cons {base : String} {names : FreshNames} (before : Since n names) (new : names.lookup base = none) :
    Since n ((base, numbered base (n + names.length + 1)) :: names)

/-- The name in place of `text`. -/
def rename (names : FreshNames) (text : String) : String :=
  match freshBase? text with
  | some base => (names.lookup base).getD text
  | none => text

variable {n : Nat} {names later : FreshNames} {base name : String}

/-- A name that was chosen is chosen for good. -/
theorem Since.lookup_of_suffix (h : Since n later) (suffix : names <:+ later)
    (found : names.lookup base = some name) : later.lookup base = some name := by
  induction h with
  | nil =>
    rw [List.suffix_nil.1 suffix] at found
    cases found
  | @cons other rest _ new ih =>
    rcases List.suffix_cons_iff.1 suffix with rfl | inside
    · exact found
    · have found := ih inside
      have ne : (base == other) = false := by
        rw [beq_eq_false_iff_ne]
        rintro rfl
        rw [new] at found
        cases found
      rw [List.lookup_cons, ne]
      exact found

theorem Since.of_lookup (h : Since n names) (found : names.lookup base = some name) :
    ∃ k, n < k ∧ k ≤ n + names.length ∧ name = numbered base k := by
  induction h with
  | nil => cases found
  | @cons other rest _ _ ih =>
    rw [List.lookup_cons] at found
    rw [List.length_cons]
    split at found
    · next same =>
      cases found
      rw [eq_of_beq same]
      exact ⟨_, by omega, by omega, rfl⟩
    · obtain ⟨k, above, below, rfl⟩ := ih found
      exact ⟨k, above, by omega, rfl⟩

theorem not_endsInDigit_start (base : String) : ¬ Text.EndsInDigit (base ++ "__") := by
  rw [Text.endsInDigit_append base (by decide)]
  decide

/-- The number of a fresh name can be read off it. -/
theorem numbered_inj {base base' : String} {k k' : Nat} (h : numbered base k = numbered base' k') : k = k' := by
  have front : base ++ "__" ++ toString k = base' ++ "__" ++ toString k' := by
    have whole : (base ++ "__" ++ toString k).toList ++ "__auto__".toList =
        (base' ++ "__" ++ toString k').toList ++ "__auto__".toList := by
      rw [← String.toList_append, ← String.toList_append]
      exact congrArg String.toList h
    exact String.toList_inj.1 (List.append_cancel_right whole)
  exact Text.eq_of_append_toString (not_endsInDigit_start base) (not_endsInDigit_start base') front

/-- **No fresh name replaces two names.** -/
theorem Since.base_eq {other : String} (h : Since n names) (found : names.lookup base = some name)
    (found' : names.lookup other = some name) : base = other := by
  induction h with
  | nil => cases found
  | @cons last rest before _ ih =>
    -- The latest name has a number that no earlier one has.
    have older {b : String} (hb : rest.lookup b = some name) :
        name ≠ numbered last (n + rest.length + 1) := by
      obtain ⟨k, -, below, rfl⟩ := before.of_lookup hb
      intro same
      have := numbered_inj same
      omega
    rw [List.lookup_cons] at found found'
    split at found <;> split at found'
    · next h _ h' => exact (eq_of_beq h).trans (eq_of_beq h').symm
    · exact absurd (Option.some.inj found).symm (older found')
    · exact absurd (Option.some.inj found').symm (older found)
    · exact ih found found'

end FreshNames

theorem Plan.code_group {name : String → String} {b : Bracket} {parts : Parts} {l : Location}
    (full : b = .list → parts ≠ .nil) : (Plan.group b parts l).code name = build b (parts.codes name) l := by
  unfold Plan.code
  split
  · next h => cases h
  · next h => cases h
  · next h => cases h
  · next h =>
    cases h
    exact absurd rfl (full rfl)
  · next h =>
    cases h
    rfl

theorem parts?_cons_ne {l : Location} {f : Form} {fs : List Form} {parts : Parts}
    (h : parts? l (f :: fs) = some parts) : parts ≠ .nil := by
  rintro rfl
  rw [parts?] at h
  obtain ⟨more, -, h⟩ := Option.bind_eq_some_iff.1 h
  split at h
  · cases h
  · cases h
  · obtain ⟨plan, -, h⟩ := Option.bind_eq_some_iff.1 h
    cases h

/-! ### The code of a template -/

/-- The computation adds fresh names, one for each of `bases` at least, and has a result that they settle. -/
def Settles {α : Type} (x : Naming α) (bases : List String) (result : FreshNames → α) : Prop :=
  ∀ (n : Nat) (names : FreshNames) (s : Session), names.Since n → s.generated = n + names.length →
    ∃ a names', x names s = .ok (a, names') { s with generated := n + names'.length } ∧ names'.Since n ∧
      names <:+ names' ∧ (∀ base ∈ bases, ∃ name, names'.lookup base = some name) ∧
      ∀ later : FreshNames, later.Since n → names' <:+ later → a = result later

namespace Settles

variable {α β : Type} {x : Naming α} {bases more : List String} {result : FreshNames → α}

theorem pure (a : α) : Settles (Pure.pure a) [] fun _ => a := by
  intro n names s since counted
  exact ⟨a, names, by rw [← counted]; rfl, since, List.suffix_rfl, nofun, fun _ _ _ => rfl⟩

theorem bind {f : α → Naming β} {then' : α → FreshNames → β} (hx : Settles x bases result)
    (hf : ∀ a, Settles (f a) more (then' a)) :
    Settles (x >>= f) (bases ++ more) fun later => then' (result later) later := by
  intro n names s since counted
  obtain ⟨a, names₁, ran, since₁, suffix₁, found₁, eq₁⟩ := hx n names s since counted
  obtain ⟨b, names₂, ran', since₂, suffix₂, found₂, eq₂⟩ :=
    hf a n names₁ { s with generated := n + names₁.length } since₁ rfl
  refine ⟨b, names₂, (Eval.bind_eq_of_ok ran).trans ran', since₂, suffix₁.trans suffix₂, ?_, ?_⟩
  · intro base hb
    rcases List.mem_append.1 hb with hb | hb
    · obtain ⟨name, found⟩ := found₁ base hb
      exact ⟨name, since₂.lookup_of_suffix suffix₂ found⟩
    · exact found₂ base hb
  · intro later hl suffix
    rw [eq₂ later hl suffix, eq₁ later hl (suffix₂.trans suffix)]

/-- A fresh name is chosen once. -/
theorem freshName (base text : String) :
    Settles (Template.freshName base) [base] fun later => (later.lookup base).getD text := by
  intro n names s since counted
  have opened : Template.freshName base names s = ((match names.lookup base with
      | some name => return name
      | none => do
        let name := (← Eval.generateName (base ++ "__")) ++ "__auto__"
        modify ((base, name) :: ·)
        return name) : Naming String) names s := rfl
  rw [opened]
  cases found : names.lookup base with
  | some name =>
    refine ⟨name, names, by rw [← counted]; rfl, since, List.suffix_rfl, ?_, fun later hl suffix => ?_⟩
    · exact List.forall_mem_singleton.2 ⟨name, found⟩
    · exact (congrArg (Option.getD · text) (hl.lookup_of_suffix suffix found)).symm
  | none =>
    have chosen : List.lookup base ((base, FreshNames.numbered base (n + names.length + 1)) :: names) =
        some (FreshNames.numbered base (n + names.length + 1)) := by simp
    refine ⟨_, _, ?_, .cons since found, List.suffix_cons .., List.forall_mem_singleton.2 ⟨_, chosen⟩,
      fun later hl suffix => (congrArg (Option.getD · text) (hl.lookup_of_suffix suffix chosen)).symm⟩
    change _ = EStateM.Result.ok _ { s with generated := n + names.length + 1 }
    rw [← counted]
    rfl

/-- A symbol is quoted under its new name. -/
theorem quoteSymbol (text : String) (l : Location) : Settles (Template.quoteSymbol text l)
    (freshBase? text).toList fun later => .call "quote" [.symbol (later.rename text) l] l := by
  have done (name : String) : Settles (Pure.pure (Form.call "quote" [.symbol name l] l)) [] fun _ =>
      .call "quote" [.symbol name l] l := .pure _
  unfold Template.quoteSymbol FreshNames.rename
  cases freshBase? text with
  | none => exact done text
  | some base => exact (freshName base text).bind done

/-- A group settles as its parts do. -/
theorem group {y : Naming (List Form)} {b : Bracket} {parts : Parts} (l : Location)
    (h : Settles y parts.bases fun later => parts.codes later.rename) (full : b = .list → parts ≠ .nil) :
    Settles (do return build b (← y) l) (Plan.group b parts l).bases fun later =>
      (Plan.group b parts l).code later.rename := by
  have built := h.bind fun codes => Settles.pure (build b codes l)
  rw [List.append_nil] at built
  simpa only [Plan.bases, Plan.code_group full] using built

end Settles

/-! ### Taking templates apart -/

section

variable {head inner item : Form} {rest : List Form} {l : Location} {plan : Plan} {parts : Parts}

/-- A list of two forms is a hole, or a list like others. -/
theorem plan?_pair (h : plan? (.group .list [head, inner] l) = some plan) :
    head.symbolName? = some "unquote" ∧ plan = .hole inner ∨
      head.symbolName? ∉ [some "unquote", some "unquote-splicing", some "syntax-quote"] ∧
        ∃ parts, parts? l [head, inner] = some parts ∧ plan = .group .list parts l := by
  rw [plan?] at h
  split at h
  · next name =>
    cases h
    exact .inl ⟨name, rfl⟩
  · cases h
  · cases h
  · next unquote splice template =>
    obtain ⟨parts, found, rfl⟩ := Option.map_eq_some_iff.1 h
    refine .inr ⟨?_, parts, found, rfl⟩
    simpa only [List.mem_cons, List.not_mem_nil, or_false, not_or] using ⟨unquote, splice, template⟩

/-- Other lists are made of their items. -/
theorem plan?_list (other : ∀ inner, rest ≠ [inner]) (h : plan? (.group .list (head :: rest) l) = some plan) :
    head.symbolName? ∉ [some "unquote", some "unquote-splicing"] ∧
      ∃ parts, parts? l (head :: rest) = some parts ∧ plan = .group .list parts l := by
  rw [plan?] at h
  · split at h
    · cases h
    · cases h
    · next unquote splice =>
      obtain ⟨parts, found, rfl⟩ := Option.map_eq_some_iff.1 h
      refine ⟨?_, parts, found, rfl⟩
      simpa only [List.mem_cons, List.not_mem_nil, or_false, not_or] using ⟨unquote, splice⟩
  · exact other

/-- An item is spliced, or it is a hole, or it has a plan of its own. -/
theorem parts?_cons (h : parts? l (item :: rest) = some parts) : ∃ more, parts? l rest = some more ∧
    ((∃ head inner, item.headSymbol? = some "unquote-splicing" ∧ item.items = [head, inner] ∧
        parts = .splice inner more) ∨
      (∃ head inner, item.headSymbol? = some "unquote" ∧ item.items = [head, inner] ∧
        parts = .item (.hole inner) (item.location.orElse l) more) ∨
      (∀ head inner, item.headSymbol? ∈ [some "unquote-splicing", some "unquote"] → item.items ≠ [head, inner]) ∧
        ∃ plan, plan? item = some plan ∧ parts = .item plan (item.location.orElse l) more) := by
  rw [parts?] at h
  obtain ⟨more, others, h⟩ := Option.bind_eq_some_iff.1 h
  refine ⟨more, others, ?_⟩
  split at h
  · next head inner name items =>
    cases h
    exact .inl ⟨head, inner, name, items, rfl⟩
  · next head inner name items =>
    cases h
    exact .inr (.inl ⟨head, inner, name, items, rfl⟩)
  · next splice unquote =>
    obtain ⟨plan, planned, h⟩ := Option.bind_eq_some_iff.1 h
    cases h
    refine .inr (.inr ⟨fun head inner name items => ?_, plan, planned, rfl⟩)
    simp only [List.mem_cons, List.not_mem_nil, or_false] at name
    exact name.elim (fun name => splice head inner name items) fun name => unquote head inner name items

variable {again : Form → Naming Form}

/-- The code of a list that is none of the special ones. -/
theorem builderWith_list (plain : head.symbolName? ∉ [some "unquote", some "unquote-splicing"])
    (nested : ∀ inner, rest = [inner] → head.symbolName? ≠ some "syntax-quote") :
    builderWith again (.group .list (head :: rest) l) =
      do return build .list (← partsWith again l (head :: rest)) l := by
  simp only [List.mem_cons, List.not_mem_nil, or_false, not_or] at plain
  unfold builderWith
  split
  · next e => cases e
  · next e => cases e
  · next e => cases e
  · next e =>
    cases e
    split
    · next name => exact absurd name plain.1
    · next name => exact absurd name plain.2
    · next name => exact absurd name (nested _ rfl)
    · rfl
  · next e =>
    cases e
    split
    · next name => exact absurd name plain.1
    · next name => exact absurd name plain.2
    · rfl
  · next list e =>
    cases e
    exact absurd rfl (list _ _ rfl)

/-- Other groups are made of their items. -/
theorem plan?_other {b : Bracket} {items : List Form} (other : b ≠ .list) :
    plan? (.group b items l) = (parts? l items).map (.group b · l) := by
  cases b with
  | list => exact absurd rfl other
  | _ => rw [plan?] <;> simp

/-- The code of another group. -/
theorem builderWith_other {b : Bracket} {items : List Form} (other : b ≠ .list) :
    builderWith again (.group b items l) = do return build b (← partsWith again l items) l := by
  cases b with
  | list => exact absurd rfl other
  | _ => rw [builderWith] <;> simp

end

namespace Settles

variable {again : Form → Naming Form} {head : Form} {rest items : List Form} {l : Location} {plan : Plan}

/-- A list settles as its items do. -/
theorem list (h : plan? (.group .list (head :: rest) l) = some plan)
    (settles : ∀ {parts : Parts}, parts? l (head :: rest) = some parts →
      Settles (Template.partsWith again l (head :: rest)) parts.bases fun later => parts.codes later.rename) :
    Settles (Template.builderWith again (.group .list (head :: rest) l)) plan.bases fun later =>
      plan.code later.rename := by
  match rest with
  | [inner] =>
    obtain ⟨name, rfl⟩ | ⟨plain, parts, found, rfl⟩ := plan?_pair h
    · rw [Template.builderWith, name]
      exact .pure _
    · simp only [List.mem_cons, List.not_mem_nil, or_false, not_or] at plain
      rw [builderWith_list (by simp [plain]) fun _ _ => plain.2.2]
      exact (settles found).group l fun _ => parts?_cons_ne found
  | [] | _ :: _ :: _ =>
    obtain ⟨plain, parts, found, rfl⟩ := plan?_list (by simp) h
    rw [builderWith_list plain (by simp)]
    exact (settles found).group l fun _ => parts?_cons_ne found

/-- So does another group. -/
theorem other {b : Bracket} (other : b ≠ .list) (h : plan? (.group b items l) = some plan)
    (settles : ∀ {parts : Parts}, parts? l items = some parts →
      Settles (Template.partsWith again l items) parts.bases fun later => parts.codes later.rename) :
    Settles (Template.builderWith again (.group b items l)) plan.bases fun later => plan.code later.rename := by
  obtain ⟨parts, found, rfl⟩ := Option.map_eq_some_iff.1 ((plan?_other other).symm.trans h)
  rw [builderWith_other other]
  exact (settles found).group l fun list => absurd list other

mutual

/-- A template of which there is a plan settles for the plan's code. -/
theorem builderWith (again : Form → Naming Form) : (f : Form) → {plan : Plan} → plan? f = some plan →
    Settles (Template.builderWith again f) plan.bases fun later => plan.code later.rename
  | .leaf d l, plan, h => by
    rw [plan?] at h
    cases h
    cases d with
    | symbol text =>
      rw [Template.builderWith]
      exact quoteSymbol text l
    | _ =>
      rw [Template.builderWith]
      · exact .pure _
      · exact fun name h => by cases h
  | .group .list [] l, plan, h => by
    rw [plan?] at h
    cases h
    rw [Template.builderWith]
    exact .pure _
  | .group .list (head :: rest) l, plan, h => list h (partsWith again l (head :: rest))
  | .group .vector items l, plan, h => other (by decide) h (partsWith again l items)
  | .group .map items l, plan, h => other (by decide) h (partsWith again l items)
  | .group .set items l, plan, h => other (by decide) h (partsWith again l items)

theorem partsWith (again : Form → Naming Form) (l : Location) : (fs : List Form) → {parts : Parts} →
    parts? l fs = some parts →
      Settles (Template.partsWith again l fs) parts.bases fun later => parts.codes later.rename
  | [], parts, h => by
    rw [parts?] at h
    cases h
    rw [Template.partsWith]
    exact .pure _
  | item :: rest, parts, h => by
    obtain ⟨more, others, h⟩ := parts?_cons h
    have after (first : Form) : Settles (do return first :: (← Template.partsWith again l rest)) more.bases
        fun later => first :: more.codes later.rename := by
      have rest := (partsWith again l rest others).bind fun codes => Settles.pure (first :: codes)
      rwa [List.append_nil] at rest
    rw [Template.partsWith]
    obtain ⟨head, inner, name, items, rfl⟩ | ⟨head, inner, name, items, rfl⟩ | ⟨plain, plan, planned, rfl⟩ := h
    · rw [name, items]
      exact after inner
    · rw [name, items]
      exact after _
    · split
      · next name items => exact absurd items (plain _ _ (by simp [name]))
      · next name items => exact absurd items (plain _ _ (by simp [name]))
      · exact (builderWith again item planned).bind fun code => after (.call "list" [code] _)

end

end Settles

/-- **The code of a template is that of its plan**, with new names for those that end in `#`. Nothing but the number
of generated names changes. -/
theorem Plan.builder_eq {f : Form} {plan : Plan} (planned : plan? f = some plan) (s : Session) :
    ∃ names : FreshNames, names.Since s.generated ∧
      (∀ base ∈ plan.bases, ∃ name, names.lookup base = some name) ∧
      builder f s = .ok (plan.code names.rename) { s with generated := s.generated + names.length } := by
  have settles (n : Nat) : Settles (builderWithin n f) plan.bases fun later => plan.code later.rename := by
    cases n with
    | zero => exact Settles.builderWith _ f planned
    | succ n => exact Settles.builderWith _ f planned
  obtain ⟨code, names, ran, since, -, found, eq⟩ := settles f.templates s.generated [] s .nil rfl
  obtain rfl : code = plan.code names.rename := eq names since List.suffix_rfl
  exact ⟨names, since, found, Eval.bind_eq_of_ok ran⟩

/-! ### Malformed templates -/

/-- The computation finds a template malformed. -/
def Rejects {α : Type} (x : Naming α) : Prop :=
  ∀ (n : Nat) (names : FreshNames) (s : Session), names.Since n → s.generated = n + names.length →
    ∃ form what l t, x names s = .error (.fault (malformed form what l)) t

namespace Rejects

variable {α β : Type} {x : Naming α} {f : α → Naming β}

theorem reject (form : String) (what : Malformation) (l : Location) :
    Rejects (Template.reject form what l : Naming α) :=
  fun _ _ s _ _ => ⟨form, what, l, s, rfl⟩

theorem first (h : Rejects x) : Rejects (x >>= f) := by
  intro n names s since counted
  obtain ⟨form, what, l, t, failed⟩ := h n names s since counted
  exact ⟨form, what, l, t, Eval.bind_eq_of_error failed⟩

theorem later {bases : List String} {result : FreshNames → α} (hx : Settles x bases result)
    (hf : ∀ a, Rejects (f a)) : Rejects (x >>= f) := by
  intro n names s since counted
  obtain ⟨a, names', ran, since', -⟩ := hx n names s since counted
  obtain ⟨form, what, l, t, failed⟩ := hf a n names' { s with generated := n + names'.length } since' rfl
  exact ⟨form, what, l, t, (Eval.bind_eq_of_ok ran).trans failed⟩

variable {again : Form → Naming Form} {head item : Form} {rest : List Form} {l : Location}

/-- A list that has no plan, unless it is a template. -/
theorem list (other : head.symbolName? ≠ some "syntax-quote") (h : plan? (.group .list (head :: rest) l) = none)
    (parts : parts? l (head :: rest) = none → Rejects (Template.partsWith again l (head :: rest))) :
    Rejects (Template.builderWith again (.group .list (head :: rest) l)) := by
  by_cases special : head.symbolName? ∈ [some "unquote", some "unquote-splicing"]
  · simp only [List.mem_cons, List.not_mem_nil, or_false] at special
    match rest with
    | [inner] =>
      rw [plan?] at h
      rw [Template.builderWith]
      obtain name | name := special <;> rw [name] at h ⊢
      · cases h
      · exact reject _ _ _
    | [] | _ :: _ :: _ =>
      rw [Template.builderWith]
      · obtain name | name := special <;> rw [name] <;> exact reject _ _ _
      · simp
  · rw [builderWith_list special fun _ _ => other]
    refine first (parts ?_)
    simp only [List.mem_cons, List.not_mem_nil, or_false, not_or] at special
    by_cases pair : ∃ inner, rest = [inner]
    · obtain ⟨inner, rfl⟩ := pair
      rw [plan?] at h
      split at h
      · next name => exact absurd name special.1
      · next name => exact absurd name special.2
      · next name => exact absurd name other
      · exact Option.map_eq_none_iff.1 h
    · rw [plan?] at h
      · split at h
        · next name => exact absurd name special.1
        · next name => exact absurd name special.2
        · exact Option.map_eq_none_iff.1 h
      · exact fun inner e => pair ⟨inner, e⟩

/-- Another group that has no plan. -/
theorem other {b : Bracket} {items : List Form} (other : b ≠ .list) (h : plan? (.group b items l) = none)
    (parts : parts? l items = none → Rejects (Template.partsWith again l items)) :
    Rejects (Template.builderWith again (.group b items l)) := by
  rw [builderWith_other other]
  exact (parts (Option.map_eq_none_iff.1 ((plan?_other other).symm.trans h))).first

/-- An item that has no plan, or some that have none behind one. -/
theorem cons (h : parts? l (item :: rest) = none)
    (first : plan? item = none → Rejects (Template.builderWith again item))
    (others : parts? l rest = none → Rejects (Template.partsWith again l rest)) :
    Rejects (Template.partsWith again l (item :: rest)) := by
  have later (none : parts? l rest = none) (code : Form) :
      Rejects (do return code :: (← Template.partsWith again l rest)) := (others none).first
  rw [Template.partsWith]
  rw [parts?] at h
  cases more : parts? l rest with
  | none =>
    split
    · exact later more _
    · exact later more _
    · cases planned : plan? item with
      | none => exact (first planned).first
      | some plan => exact .later (.builderWith again item planned) fun code => later more _
  | some more' =>
    rw [more] at h
    split
    · next name items =>
      rw [name, items] at h
      cases h
    · next name items =>
      rw [name, items] at h
      cases h
    · next splice unquote =>
      have unplanned : plan? item = none := by
        rw [Option.bind_eq_bind, Option.bind_some] at h
        split at h
        · cases h
        · cases h
        · cases planned : plan? item with
          | none => rfl
          | some plan =>
            rw [planned] at h
            cases h
      exact (first unplanned).first

mutual

/-- A template without others that has no plan is malformed. -/
theorem builderWith (again : Form → Naming Form) : (f : Form) → f.templates = 0 → plan? f = none →
    Rejects (Template.builderWith again f)
  | .leaf d l, _, h => by
    rw [plan?] at h
    cases h
  | .group .list [] l, _, h => by
    rw [plan?] at h
    cases h
  | .group .list (head :: rest) l, alone, h => by
    have inside : Form.templatesIn (head :: rest) = 0 := (Nat.add_eq_zero_iff.1 alone).2
    refine list (fun name => ?_) h fun none => partsWith again l (head :: rest) inside none
    have template : (Form.group .list (head :: rest) l).isCallTo "syntax-quote" = true := by
      match head, name with
      | .leaf (.symbol _) _, rfl => rfl
    rw [Form.templates, if_pos template] at alone
    omega
  | .group .vector items l, alone, h =>
    other (by decide) h (partsWith again l items (Nat.add_eq_zero_iff.1 alone).2)
  | .group .map items l, alone, h =>
    other (by decide) h (partsWith again l items (Nat.add_eq_zero_iff.1 alone).2)
  | .group .set items l, alone, h =>
    other (by decide) h (partsWith again l items (Nat.add_eq_zero_iff.1 alone).2)

theorem partsWith (again : Form → Naming Form) (l : Location) : (fs : List Form) → Form.templatesIn fs = 0 →
    parts? l fs = none → Rejects (Template.partsWith again l fs)
  | [], _, h => by
    rw [parts?] at h
    cases h
  | item :: rest, alone, h => by
    obtain ⟨inItem, inRest⟩ := Nat.add_eq_zero_iff.1 (alone : item.templates + Form.templatesIn rest = 0)
    exact cons h (builderWith again item inItem) (partsWith again l rest inRest)

end

end Rejects

/-- **A template without others that has no plan is malformed.** -/
theorem malformed_of_plan?_eq_none {f : Form} (alone : f.templates = 0) (h : plan? f = none) (s : Session) :
    ∃ form what l t, builder f s = .error (.fault (malformed form what l)) t := by
  have rejects : Rejects (builderWithin f.templates f) := by
    rw [alone]
    exact .builderWith _ f alone h
  obtain ⟨form, what, l, t, failed⟩ := rejects s.generated [] s .nil rfl
  exact ⟨form, what, l, t, Eval.bind_eq_of_error failed⟩

end TwinLisp.Template
