import TwinLisp.Proofs.Template.Data
import TwinLisp.Proofs.Template.Plan

/-!
# Filling templates in

The value of a template is made from the inside out and from left to right: its leaves stand for themselves, its
holes have the values of their expressions, and each group is made of what its parts contribute. In between,
sessions do what they do by themselves, such as collect garbage, and values that are needed later are saved.

What may happen is a *course*: a relation between the session before and how it ends. The code of a template
takes such a course in every evaluator in which literals, calls of some built-in functions, and the holes do.

## Main definitions

* `Template.Course`: what may happen from a session on.
* `Template.Plan.fill`: how a template is filled in.
* `Template.Evaluates`: what an evaluator does for literals and calls of built-in functions.

## Main statements

* `Template.Evaluates.fill`: the code of a template fills it in.
* `Template.Plan.settled_fill`: a template that is filled in comes to an end.
-/

namespace TwinLisp.Template

/-! ### Courses -/

/-- How something ends. -/
inductive Ending (α : Type) where
  /-- With a value. -/
  | value (a : α) (s : Session)
  /-- With a failure. -/
  | failure (c : Cause)
  /-- Nothing is said, because there is an expression that has no value. -/
  | unsettled

/-- How a computation has ended. -/
def Ending.of {α : Type} : EStateM.Result Stop Session α → Ending α
  | .ok a s => .value a s
  | .error (.fault f) _ => .failure f.cause
  | .error .outOfFuel _ => .unsettled

/-- What may happen from a session on. -/
def Course (α : Type) : Type := Session → Ending α → Prop

namespace Course

variable {α β : Type} {x : Course α} {f : α → Course β} {s : Session} {r : Ending β}

/-- One course after another. -/
inductive Then (x : Course α) (f : α → Course β) (s : Session) : Ending β → Prop where
  | value {a : α} {t : Session} {r : Ending β} (first : x s (.value a t)) (rest : f a t r) : Then x f s r
  | failure {c : Cause} (first : x s (.failure c)) : Then x f s (.failure c)
  | unsettled (first : x s .unsettled) : Then x f s .unsettled

instance : Monad Course where
  pure a := fun s r => r = .value a s
  bind := Then

/-- A computation is done. -/
def act (x : Eval α) : Course α := fun s r => r = .of (x s)

/-- Nothing happens that shows, and some values are saved; or one more object is refused. -/
inductive Pause (vs : List Value) (s : Session) : Ending Unit → Prop where
  | saved {t : Session} (idles : s.Idles t) (saves : s.Saves vs t) : Pause vs s (.value () t)
  | refused {c : Cause} (h : s.Refuses c) : Pause vs s (.failure c)

/-- The session may do something by itself. -/
def pause (vs : List Value) : Course Unit := Pause vs

/-- A course on which some values are saved. -/
def saving (vs : List Value) (x : Course α) : Course α := fun s r =>
  x s r ∧ ∀ a t, r = .value a t → s.Saves vs t

theorem bind_iff : (x >>= f) s r ↔ (∃ a t, x s (.value a t) ∧ f a t r) ∨
    (∃ c, x s (.failure c) ∧ r = .failure c) ∨ (x s .unsettled ∧ r = .unsettled) := by
  constructor
  · intro h
    cases h with
    | value first rest => exact .inl ⟨_, _, first, rest⟩
    | failure first => exact .inr (.inl ⟨_, first, rfl⟩)
    | unsettled first => exact .inr (.inr ⟨first, rfl⟩)
  · rintro (⟨a, t, first, rest⟩ | ⟨c, first, rfl⟩ | ⟨first, rfl⟩)
    · exact .value first rest
    · exact .failure first
    · exact .unsettled first

/-- The values of some courses, one after another. Each is saved until the last is there. -/
def inOrder : List (Course Value) → Course (List Value)
  | [] => return []
  | x :: xs => do
    let v ← x
    let vs ← saving [v] (inOrder xs)
    return v :: vs

end Course

/-! ### Filling in -/

/-- What a part of a group contributes. -/
inductive Contribution where
  /-- A value. -/
  | one (v : Value)
  /-- The elements of a value. -/
  | all (v : Value)

/-- The value that is contributed, or the one whose elements are. -/
def Contribution.value : Contribution → Value
  | .one v => v
  | .all v => v

/-- What is contributed. -/
def Contribution.items : Contribution → Eval (List Value)
  | .one v => return [v]
  | .all v => Library.elements .concat 0 v

/-- All that is contributed. -/
def contents (cs : List Contribution) : Eval (List Value) := return (← cs.mapM Contribution.items).flatten

/-- The value of a group with some items. No items are made `nil` instead of a list, and a map must have a value
for every key. -/
def assemble (b : Bracket) (items : List Value) : Eval Value :=
  match b, items with
  | .list, [] => return .nil
  | .map, items =>
    if items.length % 2 == 1 then
      Eval.failWith (.typeMismatch Builtin.hashMap.name "even number of arguments" "odd number")
    else Eval.valueOfGroup .map items .unknown
  | b, items => Eval.valueOfGroup b items .unknown

/-- What is contributed is put together. -/
def itemsOf (cs : List Contribution) : Course (List Value) := do
  Course.pause (cs.map Contribution.value)
  Course.act (contents cs)

/-- A group is made of its items. -/
def make (b : Bracket) (items : List Value) : Course Value := do
  Course.pause items
  let v ← Course.act (assemble b items)
  Course.pause [v]
  return v

mutual

/-- A template is filled in: `leaf` gives the values of leaves, `hole` those of expressions, and `name` the names of
symbols. -/
def Plan.fill (leaf : Leaf → Course Value) (hole : Form → Course Value) (name : String → String) :
    Plan → Course Value
  | .leaf (.symbol text) _ => leaf (.symbol (name text))
  | .leaf d _ => leaf d
  | .hole e => hole e
  | .group .list .nil _ => do
    Course.pause []
    Course.act (Eval.valueOfGroup .list [] .unknown)
  | .group b parts _ => (parts.fill leaf hole name >>= itemsOf) >>= make b

/-- The parts of a group are filled in, from left to right. -/
def Parts.fill (leaf : Leaf → Course Value) (hole : Form → Course Value) (name : String → String) :
    Parts → Course (List Contribution)
  | .nil => return []
  | .item p _ rest => do
    let v ← p.fill leaf hole name
    Course.pause [v]
    let cs ← Course.saving [v] (rest.fill leaf hole name)
    return .one v :: cs
  | .splice e rest => do
    let v ← hole e
    let cs ← Course.saving [v] (rest.fill leaf hole name)
    return .all v :: cs

end

/-! ### What code does -/

/-- The call of a built-in function. -/
def ofCall (b : Builtin) (args : List (Course Value)) : Course Value := do
  let vs ← Course.inOrder args
  Course.pause vs
  Course.act (Library.run noCaller b vs)

/-- A built-in function is applied to the elements of a value. -/
def ofApply (b : Builtin) (arg : Course Value) : Course Value := do
  let v ← arg
  Course.pause [v]
  Course.act (do Library.run noCaller b (← Library.elements .apply 1 v))

/-- What an evaluator does for the code of templates, where `Takes f x` says that the evaluation of `f` takes the
course `x`. -/
structure Evaluates (leaf : Leaf → Course Value) (Takes : Form → Course Value → Prop) : Prop where
  weaken {f : Form} {x y : Course Value} (h : Takes f x) (le : ∀ s r, x s r → y s r) : Takes f y
  quote (text : String) (l : Location) : Takes (.call "quote" [.symbol text l] l) (leaf (.symbol text))
  leaf {d : Leaf} (h : ∀ text, d ≠ .symbol text) (l : Location) : Takes (.leaf d l) (leaf d)
  call {b : Builtin} (h : b ∈ [.list, .concat, .seq]) {fs : List Form} {xs : List (Course Value)}
    (args : List.Forall₂ Takes fs xs) (l : Location) : Takes (.call b.name fs l) (ofCall b xs)
  apply {b : Builtin} (h : b ∈ [.vector, .hashMap, .hashSet]) {f : Form} {x : Course Value} (arg : Takes f x)
    (l : Location) : Takes (.call "apply" [.symbol b.name l, f] l) (ofApply b x)

end Template

/-! ### Lists of items -/

/-- A value is a list of some items. -/
def Session.IsList (s : Session) (v : Value) (items : List Value) : Prop :=
  ∃ a l, v = .ref .list a ∧ s.heap.get? a = some (.list items l)

/-- A value is given to `concat` for a contribution. -/
def Session.Gives (s : Session) (v : Value) : Template.Contribution → Prop
  | .one u => s.IsList v [u]
  | .all u => v = u

namespace Session

variable {s t : Session} {v : Value} {items : List Value}

theorem IsList.contains (h : s.IsList v items) {w : Value} (hw : w ∈ items) : s.Contains v w := by
  obtain ⟨a, l, rfl, ho⟩ := h
  exact Contains.self.part ho nofun hw

theorem IsList.saved (h : s.IsList v items) {vs : List Value} (saves : s.Saves vs t) (hv : v ∈ vs) :
    t.IsList v items := by
  obtain ⟨a, l, rfl, ho⟩ := h
  exact ⟨a, l, rfl, saves.data hv .self ho nofun⟩

theorem IsList.elements (h : s.IsList v items) (b : Builtin) (i : Nat) :
    Library.elements b i v s = .ok items s := by
  obtain ⟨a, l, rfl, ho⟩ := h
  have found : Eval.items? (.ref .list a) s = .ok (some items) s :=
    Eval.bind_eq_of_ok (Eval.object_eq_of_get? ho)
  exact Eval.bind_eq_of_ok found

theorem IsList.gains (h : s.IsList v items) (gains : s.Gains t) : t.IsList v items := by
  obtain ⟨a, l, rfl, ho⟩ := h
  exact ⟨a, l, rfl, gains.object ho⟩

theorem Gives.contains {c : Template.Contribution} (h : s.Gives v c) : s.Contains v c.value := by
  cases c with
  | one u => exact IsList.contains h (List.mem_singleton_self u)
  | all u =>
    rw [show v = u from h]
    exact .self

theorem Gives.saved {c : Template.Contribution} (h : s.Gives v c) {vs : List Value} (saves : s.Saves vs t)
    (hv : v ∈ vs) : t.Gives v c := by
  cases c with
  | one u => exact IsList.saved h saves hv
  | all u => exact h

theorem Gives.gains {c : Template.Contribution} (h : s.Gives v c) (gains : s.Gains t) : t.Gives v c := by
  cases c with
  | one u => exact IsList.gains h gains
  | all u => exact h

/-- A list is made of its items. -/
theorem isList_newList (hs : s.heap.Sound) (h : Eval.newList items s = .ok v t) : t.IsList v items := by
  obtain ⟨a, rfl, ho⟩ := Obeys.new_eq hs h
  exact ⟨a, _, rfl, ho⟩

end Session

namespace Template

variable {α β : Type} {s t : Session}

/-! ### Endings of computations -/

theorem Ending.of_eq_value {r : EStateM.Result Stop Session α} {a : α} (h : Ending.of r = .value a t) :
    r = .ok a t := by
  match r, h with
  | .ok _ _, rfl => rfl
  | .error (.fault _) _, h => cases h
  | .error .outOfFuel _, h => cases h

theorem Ending.of_bind {x y : Eval α} {f g : α → Eval β} (hxy : of (x s) = of (y s))
    (hfg : ∀ a t, x s = .ok a t → of (f a t) = of (g a t)) : of ((x >>= f) s) = of ((y >>= g) s) := by
  cases hx : x s with
  | ok a t =>
    rw [hx] at hxy
    rw [Eval.bind_eq_of_ok hx, Eval.bind_eq_of_ok (of_eq_value hxy.symm), hfg a t hx]
  | error e t =>
    rw [hx] at hxy
    cases hy : y s with
    | ok a u =>
      rw [hy] at hxy
      cases (of_eq_value hxy)
    | error e' u =>
      rw [hy] at hxy
      rw [Eval.bind_eq_of_error hx, Eval.bind_eq_of_error hy]
      cases e <;> cases e' <;> simp only [of, reduceCtorEq, Ending.failure.injEq] at hxy ⊢
      exact hxy

/-! ### What is contributed -/

/-- The elements do not depend on where the value is given. -/
theorem of_elements_eq (b : Builtin) (i j : Nat) (v : Value) (s : Session) :
    Ending.of (Library.elements b i v s) = .of (Library.elements b j v s) := by
  unfold Library.elements
  split
  all_goals first | rfl | exact congrArg Ending.failure (by simp)

/-- What `concat` is given comes to what is contributed. -/
theorem of_concat_eq {vs : List Value} {cs : List Contribution} (hs : s.heap.Sound)
    (gives : List.Forall₂ s.Gives vs cs) (k : Nat) :
    Ending.of ((vs.zipIdx k).mapM (fun x => Library.elements .concat x.2 x.1) s) =
      .of (cs.mapM Contribution.items s) := by
  induction vs generalizing s cs k with
  | nil =>
    cases gives
    rfl
  | cons v vs ih =>
    obtain ⟨c, more, give, others, rfl⟩ := List.forall₂_cons_left_iff.1 gives
    have first : Ending.of (Library.elements .concat k v s) = .of (c.items s) := by
      cases c with
      | one u => exact congrArg Ending.of (Session.IsList.elements give .concat k)
      | all u =>
        rw [show v = u from give]
        exact of_elements_eq ..
    rw [List.zipIdx_cons, List.mapM_cons, List.mapM_cons]
    refine Ending.of_bind first fun items t ran => ?_
    obtain ⟨gains, -⟩ := (Eval.MakesData.elements ..).value hs ran
    refine Ending.of_bind (ih gains.sound (others.imp fun _ _ h => h.gains gains) (k + 1)) fun _ _ _ => rfl

/-! ### One course for another -/

namespace Course

variable {x : Course α} {y : Course β} {Q : α → β → Session → Prop} {vs ws items : List Value}

instance : LawfulMonad Course := .mk' _
  (fun x => by
    funext s r
    refine propext (bind_iff.trans ⟨?_, fun h => ?_⟩)
    · rintro (⟨a, t, first, rfl⟩ | ⟨c, first, rfl⟩ | ⟨first, rfl⟩) <;> exact first
    · cases r with
      | value a t => exact .inl ⟨a, t, h, rfl⟩
      | failure c => exact .inr (.inl ⟨c, h, rfl⟩)
      | unsettled => exact .inr (.inr ⟨h, rfl⟩))
  (fun a f => by
    funext s r
    refine propext (bind_iff.trans ⟨?_, fun h => .inl ⟨a, s, rfl, h⟩⟩)
    rintro (⟨b, t, first, rest⟩ | ⟨c, first, -⟩ | ⟨first, -⟩) <;> cases first
    exact rest)
  (fun x f g => by
    funext s r
    refine propext ⟨fun h => ?_, fun h => ?_⟩
    · obtain ⟨b, t, both, rest⟩ | ⟨c, both, rfl⟩ | ⟨both, rfl⟩ := bind_iff.1 h
      · obtain ⟨a, u, first, second⟩ | ⟨c, _, eq⟩ | ⟨_, eq⟩ := bind_iff.1 both
        · exact .value first (.value second rest)
        · cases eq
        · cases eq
      · obtain ⟨a, u, first, second⟩ | ⟨c, first, eq⟩ | ⟨_, eq⟩ := bind_iff.1 both
        · exact .value first (.failure second)
        · cases eq
          exact .failure first
        · cases eq
      · obtain ⟨a, u, first, second⟩ | ⟨c, _, eq⟩ | ⟨first, _⟩ := bind_iff.1 both
        · exact .value first (.unsettled second)
        · cases eq
        · exact .unsettled first
    · obtain ⟨a, t, first, others⟩ | ⟨c, first, rfl⟩ | ⟨first, rfl⟩ := bind_iff.1 h
      · obtain ⟨b, u, second, rest⟩ | ⟨c, second, rfl⟩ | ⟨second, rfl⟩ := bind_iff.1 others
        · exact .value (.value first second) rest
        · exact .failure (.value first second)
        · exact .unsettled (.value first second)
      · exact .failure (.failure first)
      · exact .unsettled (.unsettled first))

/-- An ending is one of a course, too, but for the value. -/
inductive Ends (Q : α → β → Session → Prop) (y : Course β) (s : Session) : Ending α → Prop where
  | value {a : α} {b : β} {t : Session} (h : y s (.value b t)) (holds : Q a b t) : Ends Q y s (.value a t)
  | failure {c : Cause} (h : y s (.failure c)) : Ends Q y s (.failure c)
  | unsettled (h : y s .unsettled) : Ends Q y s .unsettled

/-- From a session on, whatever happens on one course happens on the other one, with values that are related. -/
def Follows (s : Session) (x : Course α) (y : Course β) (Q : α → β → Session → Prop) : Prop :=
  ∀ r, x s r → Ends Q y s r

theorem Follows.bind {γ δ : Type} {f : α → Course γ} {g : β → Course δ} {T : γ → δ → Session → Prop}
    (h : Follows s x y Q) (hfg : ∀ a b t, Q a b t → Follows t (f a) (g b) T) :
    Follows s (x >>= f) (y >>= g) T := by
  intro r hr
  obtain ⟨a, t, first, rest⟩ | ⟨c, first, rfl⟩ | ⟨first, rfl⟩ := bind_iff.1 hr
  · cases h _ first with
    | @value _ b _ first holds =>
      cases hfg a b t holds r rest with
      | value second related => exact .value (.value first second) related
      | failure second => exact .failure (.value first second)
      | unsettled second => exact .unsettled (.value first second)
  · cases h _ first with
    | failure first => exact .failure (.failure first)
  · cases h _ first with
    | unsettled first => exact .unsettled (.unsettled first)

theorem Follows.pure {a : α} {b : β} (h : Q a b s) : Follows s (Pure.pure a) (Pure.pure b) Q := by
  rintro r rfl
  exact .value rfl h

theorem Follows.refl (s : Session) (x : Course α) : Follows s x x fun a b _ => a = b := by
  intro r h
  cases r with
  | value a t => exact .value h rfl
  | failure c => exact .failure h
  | unsettled => exact .unsettled h

/-- A course that is followed with the same values happens. -/
theorem Follows.le {x y : Course α} (h : Follows s x y fun a b _ => a = b) {r : Ending α} (hr : x s r) : y s r := by
  cases h r hr with
  | value h same => exact same ▸ h
  | failure h => exact h
  | unsettled h => exact h

theorem Follows.saving (h : Follows s x y Q) (hs : ∀ t, s.Saves vs t → s.Saves ws t) :
    Follows s (saving vs x) (saving ws y) fun a b t => Q a b t ∧ s.Saves vs t := by
  rintro r ⟨hr, saves⟩
  cases h r hr with
  | @value _ b t h holds =>
    refine .value ⟨h, fun b' t' same => ?_⟩ ⟨holds, saves _ _ rfl⟩
    cases same
    exact hs t (saves _ _ rfl)
  | failure h => exact .failure ⟨h, nofun⟩
  | unsettled h => exact .unsettled ⟨h, nofun⟩

theorem Follows.pause (hs : ∀ t, s.Saves vs t → s.Saves ws t) :
    Follows s (pause vs) (pause ws) fun _ _ t => s.Saves vs t := by
  intro r hr
  cases hr with
  | saved idles saves => exact .value (.saved idles (hs _ saves)) saves
  | refused refusal => exact .failure (.refused refusal)

/-- A computation is done step by step. -/
theorem act_bind (x : Eval α) (f : α → Eval β) : Follows s (act (x >>= f)) (act x >>= fun a => act (f a))
    fun b b' _ => b = b' := by
  rintro r rfl
  cases ran : x s with
  | ok a t =>
    rw [Eval.bind_eq_of_ok ran]
    have first : act x s (.value a t) := (congrArg Ending.of ran).symm
    cases rest : Ending.of (f a t) with
    | value b u => exact .value (.value first rest.symm) rfl
    | failure c => exact .failure (.value first rest.symm)
    | unsettled => exact .unsettled (.value first rest.symm)
  | error e t =>
    rw [Eval.bind_eq_of_error ran]
    cases e with
    | fault f => exact .failure (.failure (congrArg Ending.of ran).symm)
    | outOfFuel => exact .unsettled (.unsettled (congrArg Ending.of ran).symm)

/-- Computations that end in the same way. -/
theorem Follows.act {x y : Eval α} (h : Ending.of (x s) = .of (y s)) :
    Follows s (act x) (act y) fun a b t => a = b ∧ y s = .ok b t := by
  rintro r rfl
  cases ended : Ending.of (x s) with
  | value a t => exact .value (ended.symm.trans h) ⟨rfl, Ending.of_eq_value (h.symm.trans ended)⟩
  | failure c => exact .failure (ended.symm.trans h)
  | unsettled => exact .unsettled (ended.symm.trans h)

theorem Follows.trans {γ : Type} {z : Course γ} {T : β → γ → Session → Prop} (h : Follows s x y Q)
    (h' : Follows s y z T) : Follows s x z fun a c t => ∃ b, Q a b t ∧ T b c t := by
  intro r hr
  cases h r hr with
  | @value _ b _ second holds =>
    cases h' _ second with
    | value third holds' => exact .value third ⟨b, holds, holds'⟩
  | failure second =>
    cases h' _ second with
    | failure third => exact .failure third
  | unsettled second =>
    cases h' _ second with
    | unsettled third => exact .unsettled third

theorem Follows.trans_eq {x y z : Course α} (h : Follows s x y fun a b _ => a = b)
    (h' : Follows s y z fun a b _ => a = b) : Follows s x z fun a b _ => a = b := by
  intro r hr
  cases h r hr with
  | value second same => exact same ▸ h' _ second
  | failure second => exact h' _ second
  | unsettled second => exact h' _ second

theorem Follows.imp {T : α → β → Session → Prop} (h : Follows s x y Q) (hQ : ∀ a b t, Q a b t → T a b t) :
    Follows s x y T := by
  intro r hr
  cases h r hr with
  | value second holds => exact .value second (hQ _ _ _ holds)
  | failure second => exact .failure second
  | unsettled second => exact .unsettled second

/-- Two pauses are one. -/
theorem Follows.pauses {Q : α → Unit → Session → Prop}
    (h : Follows s x (Course.pause vs >>= fun _ => Course.pause vs) Q) : Follows s x (Course.pause vs) Q := by
  refine (h.trans (T := fun _ _ _ => True) fun r hr => ?_).imp fun a _ t h => h.choose_spec.1
  obtain ⟨_, t, first, second⟩ | ⟨c, first, rfl⟩ | ⟨first, rfl⟩ := bind_iff.1 hr
  · cases first with
    | saved idles saves =>
      cases second with
      | saved idles' saves' => exact .value (.saved (idles.trans idles') (saves.trans saves')) trivial
      | refused refusal => exact .failure (.refused (idles.refuses refusal))
  · exact .failure first
  · exact .unsettled first

/-- A pause is long enough to make a list. -/
theorem Follows.newList (hs : s.heap.Sound) (vs items : List Value) :
    Follows s (Course.act (Eval.newList items)) (Course.pause vs) fun l _ t => t.IsList l items ∧ s.Gains t := by
  have makes : Eval.MakesData (Eval.newList items) := .new rfl
  rintro r rfl
  cases ran : Eval.newList items s with
  | ok l t =>
    obtain ⟨gains, -⟩ := makes.value hs ran
    exact .value (.saved gains.idles (gains.saves hs vs)) ⟨Session.isList_newList hs ran, gains⟩
  | error e t =>
    cases e with
    | fault f => exact .failure (.refused (Eval.MakesData.refused_of_new ran))
    | outOfFuel => exact absurd ran (makes.settled hs)

end Course

/-! ### What code comes to -/

open Course

/-- A list that is made after a pause. -/
theorem follows_pause_newList (vs items : List Value) (s : Session) :
    Follows s (pause vs >>= fun _ => act (Eval.newList items)) (pause vs) fun l _ t => t.IsList l items := by
  refine Follows.pauses ((Follows.pause fun _ => id).bind fun _ _ t saves => ?_)
  exact (Follows.newList saves.after vs items).imp fun _ _ _ h => h.1

/-- A call of `list` with one argument. -/
theorem follows_list (x : Course Value) (s : Session) : Follows s (ofCall .list [x])
    (x >>= fun v => pause [v] >>= fun _ => pure v) fun l v t => t.IsList l [v] := by
  have opened : ofCall .list [x] = x >>= fun v => saving [v] (pure []) >>= fun vs =>
      pause (v :: vs) >>= fun _ => act (Eval.newList (v :: vs)) := by
    simp only [ofCall, inOrder, bind_assoc, pure_bind]
    rfl
  rw [opened]
  refine (Follows.refl s x).bind fun v w t same => ?_
  subst same
  rintro r hr
  obtain ⟨_, _, ⟨none, -⟩, hr⟩ | ⟨_, ⟨none, -⟩, _⟩ | ⟨⟨none, -⟩, _⟩ := bind_iff.1 hr <;> cases none
  cases follows_pause_newList [v] [v] t r hr with
  | value h isList => exact .value (.value h rfl) isList
  | failure h => exact .failure (.failure h)
  | unsettled h => exact .unsettled (.unsettled h)

/-- What `concat` is given for a group comes of filling its parts in. -/
def Gathers (xs : List (Course Value)) (y : Course (List Contribution)) : Prop :=
  ∀ s, Follows s (inOrder xs) y fun vs cs t => List.Forall₂ t.Gives vs cs

theorem Gathers.nil : Gathers [] (pure []) := fun _ => .pure .nil

variable {xs : List (Course Value)} {y : Course (List Contribution)}

theorem Gathers.item {z x : Course Value} (hz : ∀ s r, z s r → ofCall .list [x] s r) (h : Gathers xs y) :
    Gathers (z :: xs) (do
      let v ← x
      pause [v]
      let cs ← saving [v] y
      return .one v :: cs) := by
  intro s
  have first : Follows s z (x >>= fun v => pause [v] >>= fun _ => pure v) fun l v t => t.IsList l [v] :=
    fun r hr => follows_list x s r (hz s r hr)
  have both := first.bind fun l v t isList => (Follows.saving (h t) fun u saves =>
    saves.within fun w hw => ⟨l, List.mem_singleton_self l, isList.contains hw⟩).bind
      fun vs cs u hu => Follows.pure (Q := fun vs cs t => List.Forall₂ t.Gives vs cs)
        (a := l :: vs) (b := .one v :: cs) (.cons (isList.saved hu.2 (List.mem_singleton_self l)) hu.1)
  change Follows s (z >>= fun l => saving [l] (inOrder xs) >>= fun vs => Pure.pure (l :: vs)) _ _
  simpa only [bind_assoc, pure_bind] using both

theorem Gathers.splice {x : Course Value} (h : Gathers xs y) : Gathers (x :: xs) (do
    let v ← x
    let cs ← saving [v] y
    return .all v :: cs) := by
  intro s
  refine (Follows.refl s x).bind fun v w t same => ?_
  subst same
  exact (Follows.saving (h t) fun _ => id).bind fun vs cs u hu => Follows.pure (.cons rfl hu.1)

/-- A call of `concat` makes a list of all items. -/
theorem Gathers.concat (h : Gathers xs y) (s : Session) :
    Follows s (ofCall .concat xs) (y >>= itemsOf >>= fun items => act (Eval.newList items)) fun l l' _ => l = l' := by
  have opened : (y >>= itemsOf >>= fun items => act (Eval.newList items)) =
      y >>= fun cs => pause (cs.map Contribution.value) >>= fun _ => act (contents cs) >>= fun items =>
        act (Eval.newList items) := by
    simp only [itemsOf, bind_assoc]
  rw [opened]
  refine (h s).bind fun vs cs t gives => ?_
  have saves {u : Session} (hu : t.Saves vs u) : t.Saves (cs.map Contribution.value) u := by
    refine hu.within fun w hw => ?_
    obtain ⟨c, hc, rfl⟩ := List.mem_map.1 hw
    obtain ⟨i, hi, rfl⟩ := List.getElem_of_mem hc
    have hv := gives.length_eq ▸ hi
    exact ⟨vs[i], List.getElem_mem hv, (gives.get hv hi).contains⟩
  refine (Follows.pause fun _ => saves).bind fun _ _ u hu => ?_
  have gives : List.Forall₂ u.Gives vs cs := by
    refine (List.forall₂_iff_get.2 ⟨gives.length_eq, fun i hv hc => ?_⟩)
    exact (gives.get hv hc).saved hu (List.get_mem ..)
  have same : Ending.of (Library.run noCaller .concat vs u) = .of ((contents cs >>= Eval.newList) u) := by
    have eq : (contents cs >>= Eval.newList) =
        cs.mapM Contribution.items >>= fun parts => Eval.newList parts.flatten := by
      simp only [contents, bind_assoc, pure_bind]
    rw [eq]
    exact Ending.of_bind (of_concat_eq hu.after gives 0) fun _ _ _ => rfl
  refine ((Follows.act same).trans (act_bind (s := u) (contents cs) Eval.newList)).imp ?_
  rintro v w _ ⟨_, ⟨rfl, -⟩, rfl⟩
  rfl

/-- Contributions are data. -/
theorem makesData_contents (cs : List Contribution) : Eval.MakesData (contents cs) := by
  refine (Eval.MakesData.mapM (fun c => ?_) cs).bind fun _ => .pure _
  cases c with
  | one v => exact .pure _
  | all v => exact .elements ..

/-- Items that were contributed are on a sound heap. -/
theorem follows_itemsOf (y : Course (List Contribution)) (s : Session) :
    Follows s (y >>= itemsOf) (y >>= itemsOf) fun items items' t => items = items' ∧ t.heap.Sound := by
  refine (Follows.refl s y).bind fun cs _ t same => ?_
  subst same
  refine (Follows.pause fun _ => id).bind fun _ _ u saves => ?_
  exact (Follows.act rfl).imp fun _ _ v ⟨same, ran⟩ =>
    ⟨same, ((makesData_contents cs).value saves.after ran).1.sound⟩

/-- A list that is made before a pause. -/
theorem follows_newList_pause (hs : s.heap.Sound) (items : List Value) :
    Follows s (act (Eval.newList items) >>= fun l => pause [l] >>= fun _ => pure l) (pause items)
      fun l _ t => t.IsList l items ∧ t.heap.Sound := by
  refine Follows.pauses ((Follows.newList hs items items).bind fun l _ t ⟨isList, _⟩ => ?_)
  have longer : Follows t (pause [l]) (pause items) fun _ _ u => t.Saves [l] u :=
    .pause fun _ saves => saves.within fun v hv => ⟨l, List.mem_singleton_self l, isList.contains hv⟩
  rw [← bind_pure (pause items)]
  refine longer.bind fun _ _ u saves => .pure ?_
  exact ⟨isList.saved saves (List.mem_singleton_self l), saves.after⟩

/-- Nothing has to happen in a pause. -/
theorem Course.of_pause (hs : s.heap.Sound) (vs : List Value) : pause vs s (.value () s) :=
  .saved .refl ⟨hs, hs, fun _ _ ho => ⟨_, ho, .same _⟩⟩

/-- A value may stay for a while. -/
theorem follows_staying {x : Course α} {y : Course Value} {Q : α → Value → Session → Prop}
    (h : Follows s x y fun a b t => Q a b t ∧ t.heap.Sound) :
    Follows s x (y >>= fun v => pause [v] >>= fun _ => pure v) Q := by
  intro r hr
  cases h r hr with
  | value first holds => exact .value (.value first (.value (Course.of_pause holds.2 _) rfl)) holds.1
  | failure first => exact .failure (.failure first)
  | unsettled first => exact .unsettled (.unsettled first)

/-- A call with one argument. -/
theorem follows_ofCall_one (b : Builtin) (x : Course Value) (s : Session) : Follows s (ofCall b [x])
    (x >>= fun v => pause [v] >>= fun _ => act (Library.run noCaller b [v])) fun v w _ => v = w := by
  have opened : ofCall b [x] = x >>= fun v => saving [v] (pure []) >>= fun vs =>
      pause (v :: vs) >>= fun _ => act (Library.run noCaller b (v :: vs)) := by
    simp only [ofCall, inOrder, bind_assoc, pure_bind]
  rw [opened]
  refine (Follows.refl s x).bind fun v w t same => ?_
  subst same
  rintro r hr
  obtain ⟨_, _, ⟨none, -⟩, hr⟩ | ⟨_, ⟨none, -⟩, _⟩ | ⟨⟨none, -⟩, _⟩ := bind_iff.1 hr <;> cases none
  exact Follows.refl t _ r hr

/-- Groups are data. -/
theorem makesData_assemble (b : Bracket) (items : List Value) : Eval.MakesData (assemble b items) := by
  unfold assemble
  split
  · exact .pure _
  · split
    · exact .fail _
    · exact .newMap _
  · cases b
    · exact .new rfl
    · exact .new rfl
    · exact .newMap _
    · exact .newSet _

/-- A group is made of the list of its items. -/
theorem follows_make (hs : s.heap.Sound) {b : Bracket} {items : List Value} {x : Value → Eval Value}
    (same : ∀ l t, t.IsList l items → Ending.of (x l t) = .of (assemble b items t)) :
    Follows s (act (Eval.newList items) >>= fun l => pause [l] >>= fun _ => act (x l)) (make b items)
      fun v w _ => v = w := by
  have opened : make b items = (pause items >>= fun _ => act (assemble b items)) >>= fun v =>
      pause [v] >>= fun _ => pure v := by
    simp only [make, bind_assoc]
  rw [opened]
  refine follows_staying ?_
  have made : Follows s ((act (Eval.newList items) >>= fun l => pause [l] >>= fun _ => pure l) >>= fun l => act (x l))
      (pause items >>= fun _ => act (assemble b items)) fun v w t => v = w ∧ t.heap.Sound := by
    refine (follows_newList_pause hs items).bind fun l _ t ⟨isList, sound⟩ => ?_
    refine (Follows.act (same l t isList)).imp fun v w u ⟨eq, ran⟩ => ?_
    exact ⟨eq, ((makesData_assemble b items).value sound ran).1.sound⟩
  simpa only [bind_assoc, pure_bind] using made

/-- `seq` makes `nil` of a list without items and leaves other lists as they are. -/
theorem follows_seq (hs : s.heap.Sound) (items : List Value) :
    Follows s (act (Eval.newList items) >>= fun l => pause [l] >>= fun _ => act (Library.run noCaller .seq [l]))
      (make .list items) fun v w _ => v = w := by
  have result {u : Session} {l : Value} (isList : u.IsList l items) : Library.run noCaller .seq [l] u =
      .ok (if items = [] then .nil else l) u := by
    obtain ⟨a, k, rfl, -⟩ := id isList
    refine (Eval.bind_eq_of_ok (isList.elements .seq 0)).trans ?_
    cases items <;> rfl
  cases items with
  | nil =>
    -- The empty list that was made is given up for `nil`.
    refine follows_make hs fun l t isList => ?_
    rw [result isList, if_pos rfl]
    rfl
  | cons v vs =>
    rintro r hr
    have opened : make .list (v :: vs) = pause (v :: vs) >>= fun _ => act (Eval.newList (v :: vs)) >>= fun l =>
        pause [l] >>= fun _ => pure l := by
      simp only [make]
      rfl
    rw [opened]
    have made : Follows s (act (Eval.newList (v :: vs)) >>= fun l => pause [l] >>= fun _ =>
        act (Library.run noCaller .seq [l])) (act (Eval.newList (v :: vs)) >>= fun l => pause [l] >>= fun _ => pure l)
        fun v w _ => v = w := by
      refine (Follows.act rfl).bind fun l l' t ⟨eq, ran⟩ => ?_
      subst eq
      refine (Follows.pause fun _ => id).bind fun _ _ u saves => ?_
      have isList := (Session.isList_newList hs ran).saved saves (List.mem_singleton_self l)
      rintro r rfl
      rw [result isList, if_neg (List.cons_ne_nil v vs)]
      exact .value rfl rfl
    cases made r hr with
    | value h same => exact .value (.value (Course.of_pause hs _) h) same
    | failure h => exact .failure (.value (Course.of_pause hs _) h)
    | unsettled h => exact .unsettled (.value (Course.of_pause hs _) h)

/-- The items of a group are listed and given to a function. -/
theorem Gathers.given (h : Gathers xs y) (b : Bracket) {x : Value → Eval Value} (s : Session)
    (makes : ∀ items t, t.heap.Sound → Follows t
      (act (Eval.newList items) >>= fun l => pause [l] >>= fun _ => act (x l)) (make b items) fun v w _ => v = w) :
    Follows s (ofCall .concat xs >>= fun l => pause [l] >>= fun _ => act (x l)) ((y >>= itemsOf) >>= make b)
      fun v w _ => v = w := by
  have listed : Follows s (ofCall .concat xs >>= fun l => pause [l] >>= fun _ => act (x l))
      ((y >>= itemsOf >>= fun items => act (Eval.newList items)) >>= fun l => pause [l] >>= fun _ => act (x l))
      fun v w _ => v = w := by
    refine (h.concat s).bind fun l l' t same => ?_
    subst same
    exact Follows.refl t _
  rw [bind_assoc] at listed
  refine listed.trans_eq ((follows_itemsOf y s).bind fun items items' t ⟨same, sound⟩ => ?_)
  subst same
  exact makes items t sound

/-- The code of a list. -/
theorem Gathers.list (h : Gathers xs y) (s : Session) :
    Follows s (ofCall .seq [ofCall .concat xs]) ((y >>= itemsOf) >>= make .list) fun v w _ => v = w :=
  (follows_ofCall_one .seq (ofCall .concat xs) s).trans_eq
    (h.given .list s fun items _ sound => follows_seq sound items)

/-- The function that makes a group of its arguments. -/
def maker : Bracket → Builtin
  | .list => .list
  | .vector => .vector
  | .map => .hashMap
  | .set => .hashSet

/-- The code of another group. -/
theorem Gathers.apply (h : Gathers xs y) {b : Bracket} (other : b ≠ .list) (s : Session) :
    Follows s (ofApply (maker b) (ofCall .concat xs)) ((y >>= itemsOf) >>= make b) fun v w _ => v = w := by
  refine h.given b s fun items t sound => follows_make sound fun l u isList => ?_
  rw [Eval.bind_eq_of_ok (isList.elements .apply 1)]
  cases b with
  | list => exact absurd rfl other
  | vector => rfl
  | map => rfl
  | set => rfl

/-! ### Templates are filled in -/

variable {leaf : Leaf → Course Value} {hole : Form → Course Value} {Takes : Form → Course Value → Prop}

/-- Nowhere is nothing said. -/
def Course.Settled {α : Type} (x : Course α) : Prop := ∀ s, ¬ x s .unsettled

namespace Course.Settled

variable {x : Course α} {f : α → Course β}

theorem pure (a : α) : (Pure.pure a : Course α).Settled := fun _ h => by cases h

theorem bind (hx : x.Settled) (hf : ∀ a, (f a).Settled) : (x >>= f).Settled := by
  intro s h
  obtain ⟨a, t, -, rest⟩ | ⟨_, -, eq⟩ | ⟨unsettled, -⟩ := bind_iff.1 h
  · exact hf a t rest
  · cases eq
  · exact hx s unsettled

theorem pause (vs : List Value) : (Course.pause vs).Settled := fun _ h => by cases h

theorem saving (vs : List Value) (hx : x.Settled) : (Course.saving vs x).Settled := fun s h => hx s h.1

/-- What makes data comes to an end after a pause. -/
theorem pause_act {y : Eval α} (vs : List Value) (makes : Eval.MakesData y) :
    (Course.pause vs >>= fun _ => act y).Settled := by
  intro s h
  obtain ⟨_, t, paused, acted⟩ | ⟨_, -, eq⟩ | ⟨paused, -⟩ := bind_iff.1 h
  · cases paused with
    | saved _ saves =>
      have acted : Ending.unsettled = Ending.of (y t) := acted
      cases ran : y t with
      | ok a u =>
        rw [ran] at acted
        cases acted
      | error e u =>
        cases e with
        | fault g =>
          rw [ran] at acted
          cases acted
        | outOfFuel => exact makes.settled saves.after ran
  · cases eq
  · cases paused

theorem inOrder {xs : List (Course Value)} (h : ∀ x ∈ xs, x.Settled) : (Course.inOrder xs).Settled := by
  induction xs with
  | nil => exact pure []
  | cons x xs ih =>
    obtain ⟨first, others⟩ := List.forall_mem_cons.1 h
    exact first.bind fun v => (saving [v] (ih others)).bind fun _ => pure _

theorem ofCall {b : Builtin} (known : b ∈ [.list, .vector, .hashMap, .hashSet, .concat, .seq])
    {xs : List (Course Value)} (h : ∀ x ∈ xs, x.Settled) : (Template.ofCall b xs).Settled :=
  (inOrder h).bind fun vs => pause_act vs (.run known noCaller vs)

theorem itemsOf (cs : List Contribution) : (Template.itemsOf cs).Settled :=
  pause_act _ (makesData_contents cs)

theorem make (b : Bracket) (items : List Value) : (Template.make b items).Settled := by
  have opened : Template.make b items = (Course.pause items >>= fun _ => act (assemble b items)) >>= fun v =>
      Course.pause [v] >>= fun _ => Pure.pure v := by
    simp only [Template.make, bind_assoc]
  rw [opened]
  exact (pause_act items (makesData_assemble b items)).bind fun v => (pause [v]).bind fun _ => pure v

end Course.Settled

theorem Plan.fill_group {name : String → String} {b : Bracket} {parts : Parts} {l : Location}
    (full : b = .list → parts ≠ .nil) : (Plan.group b parts l).fill leaf hole name =
      (parts.fill leaf hole name >>= itemsOf) >>= make b := by
  unfold Plan.fill
  split
  · next h => cases h
  · next h => cases h
  · next h => cases h
  · next h =>
    cases h
    exact absurd rfl (full rfl)
  · next h =>
    cases h
    rfl

/-- The code of a group fills it in if the code of its parts does. -/
theorem Evaluates.group (ev : Evaluates leaf Takes) {name : String → String} {b : Bracket} {parts : Parts}
    (full : b = .list → parts ≠ .nil) (takes : List.Forall₂ Takes (parts.codes name) xs)
    (gathers : Gathers xs (parts.fill leaf hole name)) (l : Location) :
    Takes ((Plan.group b parts l).code name) ((Plan.group b parts l).fill leaf hole name) := by
  rw [Plan.code_group full, Plan.fill_group full]
  have concat := ev.call (b := .concat) (by simp) takes l
  have apply {b : Bracket} (other : b ≠ .list) (known : maker b ∈ [.vector, .hashMap, .hashSet]) :=
    ev.weaken (ev.apply known concat l) fun s r hr => (gathers.apply other s).le hr
  cases b with
  | list => exact ev.weaken (ev.call (b := .seq) (by simp) (.cons concat .nil) l) fun s r hr => (gathers.list s).le hr
  | vector => exact apply (b := .vector) nofun (by simp [maker])
  | map => exact apply (b := .map) nofun (by simp [maker])
  | set => exact apply (b := .set) nofun (by simp [maker])

mutual

/-- **The code of a template fills it in** with what its expressions come to. -/
theorem Evaluates.fill (ev : Evaluates leaf Takes) (name : String → String) : (plan : Plan) →
    (∀ e ∈ plan.expressions, Takes e (hole e)) → Takes (plan.code name) (plan.fill leaf hole name)
  | .leaf d l, _ => by
    cases d with
    | symbol text => exact ev.quote (name text) l
    | _ => exact ev.leaf (fun text h => by cases h) l
  | .hole e, holes => holes e (List.mem_singleton_self e)
  | .group b parts l, holes => by
    by_cases empty : b = .list ∧ parts = .nil
    · obtain ⟨rfl, rfl⟩ := empty
      have none := ev.call (b := .list) (by simp) .nil l
      rw [ofCall, inOrder, pure_bind] at none
      exact none
    · obtain ⟨xs, takes, gathers⟩ := Evaluates.fillParts ev name parts holes
      exact ev.group (fun list none => empty ⟨list, none⟩) takes gathers l

/-- What the parts of a group contribute. -/
theorem Evaluates.fillParts (ev : Evaluates leaf Takes) (name : String → String) : (parts : Parts) →
    (∀ e ∈ parts.expressions, Takes e (hole e)) →
      ∃ xs, List.Forall₂ Takes (parts.codes name) xs ∧ Gathers xs (parts.fill leaf hole name)
  | .nil, _ => ⟨[], .nil, .nil⟩
  | .item p l rest, holes => by
    obtain ⟨first, others⟩ := List.forall_mem_append.1 holes
    obtain ⟨xs, takes, gathers⟩ := Evaluates.fillParts ev name rest others
    have item := ev.call (b := .list) (by simp) (.cons (Evaluates.fill ev name p first) .nil) l
    exact ⟨_ :: xs, .cons item takes, gathers.item fun _ _ => id⟩
  | .splice e rest, holes => by
    obtain ⟨first, others⟩ := List.forall_mem_cons.1 holes
    obtain ⟨xs, takes, gathers⟩ := Evaluates.fillParts ev name rest others
    exact ⟨hole e :: xs, .cons first takes, gathers.splice⟩

end

mutual

/-- **A template that is filled in comes to an end** if its expressions do. -/
theorem Plan.settled_fill (leaves : ∀ d, (leaf d).Settled) (name : String → String) : (plan : Plan) →
    (∀ e ∈ plan.expressions, (hole e).Settled) → (plan.fill leaf hole name).Settled
  | .leaf d l, _ => by
    cases d with
    | symbol text => exact leaves _
    | _ => exact leaves _
  | .hole e, holes => holes e (List.mem_singleton_self e)
  | .group b parts l, holes => by
    by_cases empty : b = .list ∧ parts = .nil
    · obtain ⟨rfl, rfl⟩ := empty
      exact .pause_act [] (.new rfl)
    · rw [Plan.fill_group fun list none => empty ⟨list, none⟩]
      exact ((Parts.settled_fill leaves name parts holes).bind .itemsOf).bind (.make b)

theorem Parts.settled_fill (leaves : ∀ d, (leaf d).Settled) (name : String → String) : (parts : Parts) →
    (∀ e ∈ parts.expressions, (hole e).Settled) → (parts.fill leaf hole name).Settled
  | .nil, _ => .pure []
  | .item p l rest, holes => by
    obtain ⟨first, others⟩ := List.forall_mem_append.1 holes
    exact (Plan.settled_fill leaves name p first).bind fun v => (Course.Settled.pause [v]).bind fun _ =>
      (Course.Settled.saving [v] (Parts.settled_fill leaves name rest others)).bind fun _ => .pure _
  | .splice e rest, holes => by
    obtain ⟨first, others⟩ := List.forall_mem_cons.1 holes
    exact first.bind fun v =>
      (Course.Settled.saving [v] (Parts.settled_fill leaves name rest others)).bind fun _ => .pure _

end

end TwinLisp.Template
