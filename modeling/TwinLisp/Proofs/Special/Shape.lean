import TwinLisp.Proofs.Syntax.Reader
import TwinLisp.Special.Check

/-!
# What the parts of a form mention

Taking a special form apart yields parts of that form, or finds it malformed. So the parts mention no more
handles than the whole.

## Main definitions

* `Parts`: a result with a property, unless a form is malformed.

## Main statements

* `Shape.parts_bindings`, `Shape.parts_function` and their like: the parts of each form.
* `parts_check`: checking a program yields no value, whatever it finds.
-/

namespace TwinLisp

/-- A result that satisfies `Q`, unless a form is malformed. -/
inductive Parts {α : Type} (Q : α → Prop) : Except Fault α → Prop where
  | ok {a : α} : Q a → Parts Q (.ok a)
  | malformed (form : String) (what : Malformation) (l : Location) :
    Parts Q (.error (malformed form what l))

namespace Parts

variable {α β : Type} {Q : α → Prop} {R : β → Prop}

theorem pure {a : α} (h : Q a) : Parts Q (pure a) := .ok h

theorem bind {x : Except Fault α} {k : α → Except Fault β} (h : Parts Q x)
    (hk : ∀ a, Q a → Parts R (k a)) : Parts R (x >>= k) := by
  cases h with
  | ok h => exact hk _ h
  | malformed => exact .malformed ..

theorem imp {Q' : α → Prop} {x : Except Fault α} (h : Parts Q x) (hQ : ∀ a, Q a → Q' a) :
    Parts Q' x := by
  cases h with
  | ok h => exact .ok (hQ _ h)
  | malformed => exact .malformed ..

theorem mapM {γ : Type} {P : γ → Prop} {k : γ → Except Fault α} {xs : List γ} (h : ∀ x ∈ xs, P x)
    (hk : ∀ x, P x → Parts Q (k x)) : Parts (fun ys => ∀ y ∈ ys, Q y) (xs.mapM k) := by
  induction xs with
  | nil => exact .ok (by simp)
  | cons x xs ih =>
    rw [List.mapM_cons]
    obtain ⟨hx, hs⟩ := List.forall_mem_cons.1 h
    exact (hk x hx).bind fun y hy => (ih hs).bind fun ys hys =>
      .ok (List.forall_mem_cons.2 ⟨hy, hys⟩)

theorem forM {γ : Type} {k : γ → Except Fault PUnit} {xs : List γ}
    (hk : ∀ x ∈ xs, Parts (fun _ => True) (k x)) : Parts (fun _ => True) (xs.forM k) := by
  induction xs with
  | nil => exact .ok trivial
  | cons x xs ih =>
    obtain ⟨hx, hs⟩ := List.forall_mem_cons.1 hk
    exact hx.bind fun _ _ => ih hs

end Parts

namespace Shape

variable {P : Nat → Prop} {f : Form} {fs : List Form}

theorem parts_symbolName (form role : String) (f : Form) :
    Parts (fun _ => True) (symbolName form role f) := by
  unfold symbolName
  split
  · exact .ok trivial
  · exact .malformed ..

theorem parts_listItems (form : String) (hf : f.Mentions P) :
    Parts (Form.MentionsAll P) (listItems form f) := by
  unfold listItems
  split
  · next items h =>
    cases f with
    | leaf _ _ => cases h
    | group b items' l =>
      cases b with
      | list =>
        cases h
        exact .ok (Form.mentions_group.1 hf)
      | _ => cases h
  · exact .malformed ..

theorem mentionsAll_vectorItems {items : List Form} (hf : f.Mentions P)
    (h : f.vectorItems? = some items) : Form.MentionsAll P items := by
  cases f with
  | leaf _ _ => cases h
  | group b items' l =>
    cases b with
    | vector =>
      cases h
      exact Form.mentions_group.1 hf
    | _ => cases h

/-! ### Functions -/

theorem parts_parameterNames (form : String) (l : Location) (fs : List Form) :
    Parts (fun _ => True) (parameterNames form l fs) := by
  induction fs with
  | nil => exact .ok trivial
  | cons item more ih =>
    unfold parameterNames
    refine (parts_symbolName ..).bind fun name _ => ?_
    split
    · split
      · exact (parts_symbolName ..).bind fun _ _ => .ok trivial
      · exact .malformed ..
    · exact ih.bind fun _ _ => .ok trivial

theorem parts_overload (form : String) (vector : Form) (hs : Form.MentionsAll P fs) (l : Location) :
    Parts (fun o => Form.MentionsAll P o.body) (overload form vector fs l) := by
  unfold overload
  split
  · exact .malformed ..
  · exact (parts_parameterNames ..).bind fun _ _ => .ok hs

theorem parts_overloadClause (form : String) (whole : Form) (hf : f.Mentions P) :
    Parts (fun o => Form.MentionsAll P o.body) (overloadClause form whole f) := by
  unfold overloadClause
  have items : ∀ items, f.listItems? = some items → Form.MentionsAll P items := by
    intro items h
    have := parts_listItems "" hf
    rw [listItems, h] at this
    cases this
    assumption
  split
  · exact .malformed ..
  · exact .malformed ..
  · next vector body h =>
    exact parts_overload form vector (Form.mentionsAll_cons.1 (items _ h)).2 _

/-- Overloads are kept if one can choose between them. -/
theorem parts_distinct {Q : OverloadShape → Prop} (form : String) (whole : Form) (all : List OverloadShape)
    (h : ∀ o ∈ all, Q o) : Parts (fun os => ∀ o ∈ os, Q o) (do
      if 1 < all.countP (·.rest.isSome) then
        throw (malformed form .severalRests whole.location)
      match repeated? [] all with
      | some o => throw (malformed form .sameArity (o.location.orElse whole.location))
      | none => return all) := by
  dsimp only
  split
  · exact .malformed ..
  · split
    · exact .malformed ..
    · exact .ok h

theorem parts_overloads (form : String) (whole : Form) (hs : Form.MentionsAll P fs) :
    Parts (fun os => ∀ o ∈ os, Form.MentionsAll P o.body) (overloads form whole fs) := by
  unfold overloads
  cases fs with
  | nil => exact .malformed ..
  | cons first body =>
    dsimp only
    split
    · refine (parts_overload form first (Form.mentionsAll_cons.1 hs).2 _).bind fun o ho => ?_
      exact parts_distinct form whole [o] (by simpa using ho)
    · exact (Parts.mapM hs fun f hf => parts_overloadClause form whole hf).bind
        (parts_distinct form whole)

theorem parts_function (hf : f.Mentions P) :
    Parts (fun s => ∀ o ∈ s.overloads, Form.MentionsAll P o.body) (function f) := by
  unfold function
  refine (parts_listItems "fn" hf).bind fun items hi => ?_
  have rest := hi.sublist (List.drop_sublist 1 items)
  dsimp only
  split
  · exact (parts_overloads "fn" f (rest.sublist (List.drop_sublist 1 _))).bind fun _ h => .ok h
  · exact (parts_overloads "fn" f rest).bind fun _ h => .ok h

theorem mentionsAll_withoutDocumentation (hs : Form.MentionsAll P fs) :
    Form.MentionsAll P (withoutDocumentation fs) := by
  unfold withoutDocumentation
  split
  · split
    · exact (Form.mentionsAll_cons.1 hs).2
    · exact hs
  · exact hs

theorem parts_macroDefinition (hf : f.Mentions P) :
    Parts (fun s => ∀ o ∈ s.2, Form.MentionsAll P o.body) (macroDefinition f) := by
  unfold macroDefinition
  refine (parts_listItems "defmacro" hf).bind fun items hi => ?_
  have rest := hi.sublist (List.drop_sublist 1 items)
  split
  · exact .malformed ..
  · next nameForm rest' h =>
    rw [h] at rest
    refine (parts_symbolName ..).bind fun name _ => ?_
    have rest := mentionsAll_withoutDocumentation (Form.mentionsAll_cons.1 rest).2
    exact (parts_overloads "defmacro" f rest).bind fun _ h => .ok h

/-! ### Bindings -/

theorem parts_bindingPairs (form : String) (l : Location) : (fs : List Form) →
    Form.MentionsAll P fs → Parts (fun bs => ∀ b ∈ bs, b.2.Mentions P) (bindingPairs form l fs)
  | [], _ => .ok (by simp)
  | [_], _ => .ok (by simp)
  | name :: value :: more, hs => by
    obtain ⟨-, hs⟩ := Form.mentionsAll_cons.1 hs
    obtain ⟨hv, hs⟩ := Form.mentionsAll_cons.1 hs
    unfold bindingPairs
    split
    · exact .malformed ..
    · exact (parts_bindingPairs form l more hs).bind fun bs hbs =>
        .ok (List.forall_mem_cons.2 ⟨hv, hbs⟩)

theorem parts_bindings (form : String) (hf : f.Mentions P) :
    Parts (fun bs => ∀ b ∈ bs, b.2.Mentions P) (bindings form f) := by
  unfold bindings
  refine (parts_listItems form hf).bind fun items hi => ?_
  have rest := hi.sublist (List.drop_sublist 1 items)
  split
  · exact .malformed ..
  · next vector more h =>
    rw [h] at rest
    dsimp only
    split
    · exact .malformed ..
    · next pairs hp =>
      split
      · exact .malformed ..
      · exact parts_bindingPairs form _ pairs
          (mentionsAll_vectorItems (Form.mentionsAll_cons.1 rest).1 hp)

theorem mentionsAll_bindingBody (hf : f.Mentions P) : Form.MentionsAll P (bindingBody f) :=
  hf.items.sublist (List.drop_sublist 2 _)

/-! ### Definitions -/

theorem parts_definition (hf : f.Mentions P) :
    Parts (fun d => ∀ v, d.2 = some v → v.Mentions P) (definition f) := by
  unfold definition
  refine (parts_listItems "def" hf).bind fun items hi => ?_
  split
  · exact (parts_symbolName ..).bind fun _ _ => .ok (by simp)
  · refine (parts_symbolName ..).bind fun _ _ => .ok ?_
    simp only [Form.mentionsAll_cons] at hi
    rintro v ⟨⟩
    exact hi.2.2.1
  · refine (parts_symbolName ..).bind fun _ _ => ?_
    split
    · refine .ok ?_
      simp only [Form.mentionsAll_cons] at hi
      rintro v ⟨⟩
      exact hi.2.2.2.1
    · exact .malformed ..
  · exact .malformed ..

/-! ### Failures -/

/-- The forms of the handlers and of the cleanup mention no other handles. -/
def ClausesMention (P : Nat → Prop) (handlers : List (String × List Form))
    (cleanup : Option (List Form)) : Prop :=
  (∀ h ∈ handlers, Form.MentionsAll P h.2) ∧ ∀ fs, cleanup = some fs → Form.MentionsAll P fs

theorem parts_clauses (hs : Form.MentionsAll P fs) :
    Parts (fun c => ClausesMention P c.1 c.2) (clauses fs) := by
  induction fs with
  | nil => exact .ok ⟨by simp, by simp⟩
  | cons clause more ih =>
    obtain ⟨hc, hs⟩ := Form.mentionsAll_cons.1 hs
    have items := hc.items
    unfold clauses
    split
    · split
      · next h =>
        rw [h] at items
        simp only [Form.mentionsAll_cons] at items
        refine (parts_symbolName ..).bind fun _ _ => ?_
        refine (parts_symbolName ..).bind fun name _ => ?_
        refine (ih hs).bind fun c hc => .ok ⟨?_, hc.2⟩
        exact List.forall_mem_cons.2 ⟨items.2.2.2, hc.1⟩
      · exact .malformed ..
    · split
      · split
        · refine .ok ⟨by simp, ?_⟩
          rintro _ ⟨⟩
          exact items.sublist (List.drop_sublist 1 _)
        · exact .malformed ..
      · exact .malformed ..

theorem parts_attempt (hf : f.Mentions P) :
    Parts (fun s => Form.MentionsAll P s.body ∧ ClausesMention P s.handlers s.cleanup) (attempt f) := by
  unfold attempt
  refine (parts_listItems "try" hf).bind fun items hi => ?_
  have rest := hi.sublist (List.drop_sublist 1 items)
  dsimp only
  refine (parts_clauses (rest.sublist (List.dropWhile_sublist _))).bind fun c hc => .ok ⟨?_, hc⟩
  exact rest.sublist (List.takeWhile_sublist _)

end Shape

/-! ### Checking -/

theorem parts_checkBody {k : Bool → Form → Except Fault Unit} (hk : ∀ b f, Parts (fun _ => True) (k b f))
    (isLast : Bool) (fs : List Form) : Parts (fun _ => True) (checkBody k isLast fs) := by
  induction fs with
  | nil => exact .ok trivial
  | cons f fs ih =>
    cases fs with
    | nil => exact hk _ _
    | cons g gs => exact (hk _ _).bind fun _ _ => ih

theorem parts_checkRecur (cursor : Location) (target : Option RecurTarget) (isLast : Bool) (argc : Nat) :
    Parts (fun _ => True) (checkRecur cursor target isLast argc) := by
  unfold checkRecur
  repeat' split
  all_goals first | exact .malformed .. | exact .ok trivial

theorem parts_checkSpecial {k : Location → Option RecurTarget → Bool → Form → Except Fault Unit}
    (hk : ∀ l t b f, Parts (fun _ => True) (k l t b f)) (cursor : Location)
    (target : Option RecurTarget) (isLast : Bool) (kind : SpecialForm) (f : Form) :
    Parts (fun _ => True) (checkSpecial k cursor target isLast kind f) := by
  have body (l t b fs) : Parts (fun _ => True) (checkBody (k l t) b fs) :=
    parts_checkBody (fun _ _ => hk ..) b fs
  have parts (t) (fs : List Form) : Parts (fun _ => True) (fs.forM (k cursor t false)) :=
    Parts.forM fun _ _ => hk ..
  have functions (os : List OverloadShape) : Parts (fun _ => True) (os.forM fun o =>
      checkBody (k (o.location.orElse cursor) (some ⟨o.names.length, o.rest.isSome⟩)) true o.body) :=
    Parts.forM fun _ _ => body ..
  have mentions : f.Mentions fun _ => True := fun _ _ => trivial
  cases kind with
  | quote =>
    unfold checkSpecial
    dsimp only
    split
    · exact .malformed ..
    · exact .ok trivial
  | template => exact .malformed ..
  | handler => exact .malformed ..
  | cleanup => exact .malformed ..
  | conditional =>
    unfold checkSpecial
    dsimp only
    split
    · split
      · exact .malformed ..
      · exact (hk ..).bind fun _ _ => Parts.forM fun _ _ => hk ..
    · exact .malformed ..
  | sequence => exact body ..
  | letBinding =>
    exact (Shape.parts_bindings "let" mentions).bind fun _ _ =>
      (Parts.forM fun _ _ => hk ..).bind fun _ _ => body ..
  | loop =>
    exact (Shape.parts_bindings "loop" mentions).bind fun _ _ =>
      (Parts.forM fun _ _ => hk ..).bind fun _ _ => body ..
  | function => exact (Shape.parts_function mentions).bind fun _ _ => functions _
  | macroDefinition => exact (Shape.parts_macroDefinition mentions).bind fun _ _ => functions _
  | definition =>
    refine (Shape.parts_definition mentions).bind fun d _ => ?_
    obtain ⟨defined, value⟩ := d
    dsimp only
    split
    · exact .malformed ..
    · exact Parts.forM fun _ _ => hk ..
  | recur => exact (parts_checkRecur ..).bind fun _ _ => Parts.forM fun _ _ => hk ..
  | raise =>
    unfold checkSpecial
    dsimp only
    split
    · exact hk ..
    · exact .malformed ..
  | attempt =>
    refine (Shape.parts_attempt mentions).bind fun _ _ => (parts ..).bind fun _ _ => ?_
    exact (Parts.forM fun _ _ => parts ..).bind fun _ _ => parts ..

theorem parts_check (limit : Nat) (f : Form) : Parts (fun _ => True) (check limit f) := by
  have checked (depth : Nat) : ∀ cursor target isLast f,
      Parts (fun _ => True) (checkForm limit depth cursor target isLast f) := by
    induction depth with
    | zero => exact fun _ _ _ _ => .malformed ..
    | succ depth ih =>
      intro cursor target isLast f
      unfold checkForm
      dsimp only
      split
      · exact parts_checkSpecial ih ..
      · exact Parts.forM fun f _ => ih _ _ _ f
  exact checked ..

end TwinLisp
