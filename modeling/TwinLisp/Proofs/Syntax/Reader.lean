import TwinLisp.Syntax.Reader

/-!
# What is read

A text has no way to write an object down, so no form that is read from one mentions a handle; macros
alone put objects into code. And a map that is read has a value for every key.

## Main definitions

* `Form.Mentions` and `Form.MentionsAll`: code mentions only handles with a property.
* `Form.IsPlain`: a form mentions no object.
* `Form.IsWritten`: a form is one that can be written down.

## Main statements

* `readForms_written`: whatever is read from a text can be written down.
* `readAll_plain`: the forms of a text are plain.
-/

namespace TwinLisp

/-! ### Handles in code -/

/-- A form mentions only handles that satisfy `P`. -/
def Form.Mentions (P : Nat → Prop) (f : Form) : Prop := ∀ h ∈ f.handles, P h

/-- Forms mention only handles that satisfy `P`. -/
def Form.MentionsAll (P : Nat → Prop) (fs : List Form) : Prop := ∀ f ∈ fs, f.Mentions P

namespace Form

variable {P Q : Nat → Prop} {f : Form} {fs gs : List Form}

theorem mem_handlesOf {h : Nat} : h ∈ handlesOf fs ↔ ∃ f ∈ fs, h ∈ f.handles := by
  induction fs with
  | nil => simp [handlesOf]
  | cons f fs ih => simp [handlesOf, ih]

theorem Mentions.imp (hf : f.Mentions P) (hPQ : ∀ h, P h → Q h) : f.Mentions Q :=
  fun h hh => hPQ h (hf h hh)

theorem MentionsAll.imp (hf : MentionsAll P fs) (hPQ : ∀ h, P h → Q h) : MentionsAll Q fs :=
  fun f hm => (hf f hm).imp hPQ

@[simp] theorem mentions_group {b : Bracket} {l : Location} :
    (group b fs l).Mentions P ↔ MentionsAll P fs := by
  simp only [Mentions, MentionsAll, handles, mem_handlesOf]
  exact ⟨fun h f hf n hn => h n ⟨f, hf, hn⟩, fun h n ⟨f, hf, hn⟩ => h f hf n hn⟩

@[simp] theorem mentions_leaf {d : Leaf} {l : Location} :
    (leaf d l).Mentions P ↔ ∀ h, d = .object h → P h := by
  cases d <;> simp [Mentions, handles]

@[simp] theorem mentionsAll_nil : MentionsAll P [] := fun _ h => nomatch h

@[simp] theorem mentionsAll_cons : MentionsAll P (f :: fs) ↔ f.Mentions P ∧ MentionsAll P fs :=
  List.forall_mem_cons

@[simp] theorem mentionsAll_append :
    MentionsAll P (fs ++ gs) ↔ MentionsAll P fs ∧ MentionsAll P gs :=
  List.forall_mem_append

theorem MentionsAll.sublist (hf : MentionsAll P fs) (h : gs.Sublist fs) : MentionsAll P gs :=
  fun f hm => hf f (h.subset hm)

@[simp] theorem mentions_withLocation {l : Location} :
    (f.withLocation l).Mentions P ↔ f.Mentions P := by
  cases f <;> simp [withLocation]

theorem Mentions.items (hf : f.Mentions P) : MentionsAll P f.items := by
  cases f with
  | leaf d l => exact mentionsAll_nil
  | group b items l => exact mentions_group.1 hf

@[simp] theorem mentions_call {name : String} {l : Location} :
    (call name fs l).Mentions P ↔ MentionsAll P fs := by
  simp [call]

@[simp] theorem mentions_default : (default : Form).Mentions P := by
  change (leaf .nil .unknown).Mentions P
  simp

end Form

/-! ### Forms that can be written down -/

/-- A form mentions no object. -/
def Form.IsPlain (f : Form) : Prop := f.Mentions fun _ => False

/-- All of some forms mention no object. -/
def Form.ArePlain (fs : List Form) : Prop := Form.MentionsAll (fun _ => False) fs

/-- A form that can be written down: it mentions no object, and every key of its maps has a value. -/
inductive Form.IsWritten : Form → Prop where
  | leaf {d : Leaf} {l : Location} (h : ∀ n, d ≠ .object n) : IsWritten (.leaf d l)
  | group {b : Bracket} {fs : List Form} {l : Location} (hs : ∀ f ∈ fs, f.IsWritten)
    (even : b = .map → fs.length % 2 = 0) : IsWritten (.group b fs l)

namespace Form

variable {f : Form} {fs : List Form}

theorem IsWritten.isPlain (h : f.IsWritten) : f.IsPlain := by
  induction h with
  | leaf h => exact mentions_leaf.2 fun n hn => h n hn
  | group _ _ ih => exact mentions_group.2 ih

theorem isWritten_symbol (name : String) (l : Location) : (symbol name l).IsWritten := .leaf nofun

theorem IsWritten.list (hs : ∀ f ∈ fs, f.IsWritten) (l : Location) : (list fs l).IsWritten :=
  .group hs nofun

theorem isWritten_call (name : String) (hs : ∀ f ∈ fs, f.IsWritten) (l : Location) :
    (call name fs l).IsWritten :=
  .list (List.forall_mem_cons.2 ⟨isWritten_symbol name l, hs⟩) l

end Form

/-! ### Anonymous functions -/

namespace Placeholder

theorem renameAll_eq_map (fs : List Form) : renameAll fs = fs.map rename := by
  induction fs with
  | nil => rfl
  | cons f fs ih => rw [renameAll, ih, List.map_cons]

theorem isWritten_rename {f : Form} (h : f.IsWritten) : (rename f).IsWritten := by
  induction h with
  | @leaf d l h =>
    cases d with
    | symbol name =>
      rw [rename]
      split <;> exact Form.isWritten_symbol _ l
    | _ => exact .leaf h
  | group _ even ih =>
    rw [rename, renameAll_eq_map]
    refine .group (fun g hg => ?_) fun e => by rw [List.length_map, even e]
    obtain ⟨f, hf, rfl⟩ := List.mem_map.1 hg
    exact ih f hf

end Placeholder

theorem isWritten_anonymousFunction {body : List Form} (h : ∀ f ∈ body, f.IsWritten) (l : Location) :
    (anonymousFunction body l).IsWritten := by
  have parameters (names : List String) : (Form.vector (names.map fun name => .symbol name l) l).IsWritten := by
    refine .group (fun f hf => ?_) nofun
    obtain ⟨name, -, rfl⟩ := List.mem_map.1 hf
    exact Form.isWritten_symbol name l
  have renamed : (Form.list (Placeholder.renameAll body) l).IsWritten := by
    rw [Placeholder.renameAll_eq_map]
    refine .list (fun g hg => ?_) l
    obtain ⟨f, hf, rfl⟩ := List.mem_map.1 hg
    exact Placeholder.isWritten_rename (h f hf)
  refine Form.isWritten_call "fn*" (fun f hf => ?_) l
  rcases List.mem_cons.1 hf with rfl | hf
  · exact parameters _
  · rw [List.mem_singleton.1 hf]
    exact renamed

/-! ### The stack of the reader -/

/-- The items that an entry of the stack has gathered can be written down. -/
def Pending.IsWritten : Pending → Prop
  | .group _ _ items => ∀ f ∈ items, f.IsWritten
  | .function _ items => ∀ f ∈ items, f.IsWritten
  | _ => True

/-- A form that is delivered leaves what can be written down. -/
theorem deliver_written {f : Form} {stack : List Pending} (hf : f.IsWritten)
    (hs : ∀ p ∈ stack, p.IsWritten) :
    (∀ g, deliver f stack = .inl g → g.IsWritten) ∧
      ∀ rest, deliver f stack = .inr rest → ∀ p ∈ rest, p.IsWritten := by
  induction stack generalizing f with
  | nil =>
    refine ⟨fun g e => ?_, nofun⟩
    cases e
    exact hf
  | cons p stack ih =>
    obtain ⟨hp, below⟩ := List.forall_mem_cons.1 hs
    clear hs
    cases p with
    | group b l items =>
      refine ⟨nofun, fun rest e => ?_⟩
      cases e
      exact List.forall_mem_cons.2 ⟨List.forall_mem_cons.2 ⟨hf, hp⟩, below⟩
    | function l items =>
      refine ⟨nofun, fun rest e => ?_⟩
      cases e
      exact List.forall_mem_cons.2 ⟨List.forall_mem_cons.2 ⟨hf, hp⟩, below⟩
    | marked m l => exact ih (Form.isWritten_call m.name (by simpa using hf) l) below
    | discarding =>
      refine ⟨nofun, fun rest e => ?_⟩
      cases e
      exact List.forall_mem_cons.2 ⟨trivial, below⟩
    | required => exact ih hf below

/-- What a step of the reader leaves can be written down. -/
def Step.IsWritten : Step → Prop
  | .opened stack => ∀ p ∈ stack, p.IsWritten
  | .finished form stack => (∀ f, form = .ok f → f.IsWritten) ∧ ∀ p ∈ stack, p.IsWritten
  | .ended => True

theorem closeGroup_written {b : Bracket} {l : Location} {items : List Form}
    (h : ∀ f ∈ items, f.IsWritten) {f : Form} (closed : closeGroup b l items = .ok f) : f.IsWritten := by
  unfold closeGroup at closed
  split at closed
  · cases closed
  · next even =>
    cases closed
    refine .group h ?_
    rintro rfl
    have odd : ¬ items.length % 2 = 1 := by simpa using even
    omega

theorem closeBracket_written {c : Closer} {l : Location} {stack : List Pending}
    (hs : ∀ p ∈ stack, p.IsWritten) {step : Step} (closed : closeBracket c l stack = .ok step) :
    step.IsWritten := by
  unfold closeBracket at closed
  split at closed
  · next b l items stack =>
    obtain ⟨hp, hs⟩ := List.forall_mem_cons.1 hs
    split at closed
    · cases closed
      exact ⟨fun f hf => closeGroup_written (fun g hg => hp g (List.mem_reverse.1 hg)) hf, hs⟩
    · cases closed
  · next l items stack =>
    obtain ⟨hp, hs⟩ := List.forall_mem_cons.1 hs
    split at closed
    · cases closed
      refine ⟨fun f hf => ?_, hs⟩
      cases hf
      exact isWritten_anonymousFunction (fun g hg => hp g (List.mem_reverse.1 hg)) _
    · cases closed
  · cases closed

theorem openBracket_written {p : Pending} (hp : p.IsWritten) {l : Location} {stack : List Pending}
    (hs : ∀ p ∈ stack, p.IsWritten) {step : Step} (opened : openBracket p l stack = .ok step) :
    step.IsWritten := by
  unfold openBracket at opened
  split at opened
  · cases opened
  · cases opened
    exact List.forall_mem_cons.2 ⟨hp, hs⟩

theorem Token.leaf?_ne_object {t : Token} {d : Leaf} (h : t.leaf? = some d) (n : Nat) : d ≠ .object n := by
  rintro rfl
  cases t <;> cases h

/-- **A step of the reader leaves what can be written down.** -/
theorem readStep_written {stack : List Pending} (hs : ∀ p ∈ stack, p.IsWritten) {t : Located} {step : Step}
    (read : readStep stack t = .ok step) : step.IsWritten := by
  have empty : ∀ f ∈ ([] : List Form), f.IsWritten := fun _ hf => nomatch hf
  unfold readStep at read
  split at read
  · next b _ => exact openBracket_written (p := .group b t.location []) empty hs read
  · exact openBracket_written (p := .function t.location []) empty hs read
  · exact closeBracket_written hs read
  · cases read
    exact List.forall_mem_cons.2 ⟨trivial, hs⟩
  · cases read
    exact List.forall_mem_cons.2 ⟨trivial, hs⟩
  · unfold endText at read
    split at read <;> cases read
    exact trivial
  · split at read
    · next leaf =>
      cases read
      refine ⟨fun f hf => ?_, hs⟩
      cases hf
      exact .leaf (Token.leaf?_ne_object leaf)
    · cases read
      exact hs

/-! ### Whole texts -/

theorem readTokens_written (stop : Option ReadError) {stack : List Pending}
    (hs : ∀ p ∈ stack, p.IsWritten) (ts : List Located) :
    ∀ f ∈ (readTokens stop stack ts).forms, f.IsWritten := by
  have empty : ∀ f ∈ ([] : List Form), f.IsWritten := fun _ hf => nomatch hf
  induction ts generalizing stack with
  | nil => exact empty
  | cons t ts ih =>
    unfold readTokens
    cases read : readStep stack t with
    | error e => exact empty
    | ok step =>
      have written := readStep_written hs read
      cases step with
      | ended => exact empty
      | opened stack => exact ih written
      | finished form stack =>
        obtain ⟨hf, hs⟩ := written
        dsimp only
        split
        · exact empty
        · cases form with
          | error e => exact empty
          | ok f =>
            obtain ⟨finished, waiting⟩ := deliver_written (hf f rfl) hs
            dsimp only
            cases delivered : deliver f stack with
            | inr rest => exact ih (waiting rest delivered)
            | inl g => exact List.forall_mem_cons.2 ⟨finished g delivered, ih (by simp)⟩

/-- **What is read from a text can be written down,** also what is read before a fault. -/
theorem readForms_written (source : String) : ∀ f ∈ (readForms source).forms, f.IsWritten :=
  readTokens_written _ (by simp) _

/-- **The forms of a text are plain.** -/
theorem readAll_plain {source : String} {fs : List Form} (h : readAll source = .ok fs) :
    Form.ArePlain fs := by
  unfold readAll at h
  dsimp only at h
  split at h
  · cases h
  · cases h
    exact fun f hf => (readForms_written source f hf).isPlain

end TwinLisp
