import TwinLisp.Proofs.Template.Course
import TwinLisp.Proofs.Transparency.Setting

/-!
# The ground for templates

What the evaluators have in common when they fill templates in: a session that corresponds to itself has saved
whatever its values contain, some names stand for built-in functions, and literals are data.

## Main definitions

* `Session.Supplies`: the functions that the code of templates calls have their usual names.
* `Template.literal`: what a literal comes to.

## Main statements

* `Session.saves_of_match`: what corresponds to itself has been saved.
-/

namespace TwinLisp

/-- What is contained in data corresponds to itself if the data does. -/
theorem Object.Match.parts {S : Setting} {w : World} {o : Object} (h : o.Match S w o) (data : ∀ u, o ≠ .atom u)
    {v : Value} (hv : v ∈ o.parts) : v.Match w v := by
  have contained : o.parts = o.contents := by
    cases o with
    | atom u => exact absurd rfl (data u)
    | _ => rfl
  rw [contained] at hv
  obtain ⟨i, hi, rfl⟩ := List.getElem_of_mem hv
  exact h.contents.get hi hi

namespace Session

variable {S : Setting} {W : Address → Prop} {w : World} {s t : Session} {vs : List Value}

/-- **What corresponds to itself has been saved**: everything in it is there, and nothing but atoms has changed. -/
theorem saves_of_match (hs : s.heap.Sound) (keeps : s.Keeps W t) (hm : t.Match S w t)
    (hv : ∀ v ∈ vs, v.Match w v) : s.Saves vs t := by
  have found {k : Kind} {a : Address} {o : Object} (hu : (Value.ref k a).Match w (.ref k a))
      (ho : s.heap.get? a = some o) : ∃ o', t.heap.get? a = some o' ∧ o'.Match S w o' ∧ o.Stays True o' := by
    cases hu with
    | ref _ live =>
      obtain ⟨o', p, ho', hp, -, same, -⟩ := hm.heap.objects live
      cases ho'.symm.trans hp
      exact ⟨o', ho', same, (keeps.object ho ho').imp fun _ => trivial⟩
  have inside {v : Value} (hm : v ∈ vs) {u : Value} (hc : s.Contains v u) : u.Match w u := by
    induction hc with
    | self => exact hv v hm
    | part _ ho data hu ih =>
      obtain ⟨o', -, same, stays⟩ := found ih ho
      cases stays with
      | same => exact same.parts data hu
      | written _ v => exact absurd rfl (data v)
  refine ⟨hs, hm.heap.soundLeft, fun hv hc ho => ?_⟩
  obtain ⟨o', ho', -, stays⟩ := found (inside hv hc) ho
  exact ⟨o', ho', stays⟩

/-! ### Names -/

/-- The functions that the code of templates calls. -/
def needed : List Builtin := [.seq, .concat, .list, .apply, .vector, .hashMap, .hashSet]

/-- Seen from the scope `σ`, the name of a built-in function stands for it. -/
def Names (s : Session) (σ : ScopeId) (b : Builtin) (a : Address) : Prop :=
  ∃ x f, s.symbols.find? b.name = some x ∧ s.scopes.lookup? σ x = some (.ref .function a) ∧
    s.heap.get? a = some (.function f) ∧ f.body = .native (.builtin b)

/-- Seen from the scope `σ`, the names of the functions that the code of templates calls stand for them. -/
def Supplies (s : Session) (σ : ScopeId) : Prop := ∀ b ∈ needed, ∃ a, s.Names σ b a

/-- The built-in function whose name stands for it, seen from the scope `σ`. -/
def named? (s : Session) (σ : ScopeId) (b : Builtin) : Option Address :=
  match (s.symbols.find? b.name).bind (s.scopes.lookup? σ) with
  | some (.ref .function a) =>
    match s.heap.get? a with
    | some (.function f) =>
      match f.body with
      | .native (.builtin c) => if c = b then some a else none
      | _ => none
    | _ => none
  | _ => none

theorem named?_eq_some_iff {σ : ScopeId} {b : Builtin} {a : Address} : s.named? σ b = some a ↔ s.Names σ b a := by
  unfold named? Names
  constructor
  · intro h
    split at h
    · next found =>
      obtain ⟨x, named, bound⟩ := Option.bind_eq_some_iff.1 found
      split at h
      · next f hf =>
        split at h
        · next body =>
          split at h
          · next same =>
            cases same
            cases h
            exact ⟨x, f, named, bound, hf, body⟩
          · cases h
        · cases h
      · cases h
    · cases h
  · rintro ⟨x, f, named, bound, hf, body⟩
    simp [named, bound, hf, body]

instance (s : Session) (σ : ScopeId) : Decidable (s.Supplies σ) :=
  decidable_of_iff (∀ b ∈ needed, (s.named? σ b).isSome = true) (by
    simp only [Option.isSome_iff_exists, named?_eq_some_iff]
    rfl)

theorem Idles.names (h : s.Idles t) : t.scopes = s.scopes ∧
    ∀ {text : String} {x : Symbol}, s.symbols.find? text = some x → t.symbols.find? text = some x := by
  induction h with
  | refl => exact ⟨rfl, id⟩
  | tail _ idle ih =>
    obtain ⟨scopes, names⟩ := ih
    cases idle with
    | intern name => exact ⟨scopes, fun found => SymbolTable.find?_intern_of_find? name (names found)⟩
    | place data => exact ⟨scopes, names⟩
    | collect roots => exact ⟨scopes, names⟩

theorem Supplies.gains {σ : ScopeId} (h : s.Supplies σ) (gains : s.Gains t) : t.Supplies σ := by
  intro b hb
  obtain ⟨a, x, f, found, bound, hf, body⟩ := h b hb
  obtain ⟨scopes, names⟩ := gains.idles.names
  exact ⟨a, x, f, names found, scopes ▸ bound, gains.object hf, body⟩

/-- The functions are there after a collection, too. -/
theorem Supplies.idles {e : Terms} (h : s.Supplies Scopes.root) (idles : s.Idles t) (keeps : s.Keeps W t)
    (hm : t.Match (.transparent e) w t) : t.Supplies Scopes.root := by
  intro b hb
  obtain ⟨a, x, f, found, bound, hf, body⟩ := h b hb
  obtain ⟨scopes, names⟩ := idles.names
  rw [← scopes] at bound
  have same := hm.scopes.2.lookup? x hm.scopes.2.root
  rw [bound] at same
  cases same with
  | some same =>
    cases same with
    | ref _ live =>
      obtain ⟨o, _, ho, -⟩ := hm.heap.objects live
      cases keeps.object hf ho
      exact ⟨a, x, f, names found, bound, ho, body⟩

end Session

/-! ### Literals -/

theorem Value.identical_self (v : Value) : v.identical v = true := by
  cases v <;> simp [identical, Double.identical]

theorem Value.identical_trans {u v w : Value} (h : u.identical v = true) (h' : v.identical w = true) :
    u.identical w = true := by
  cases u <;> cases v <;> simp only [identical, Bool.false_eq_true] at h <;> cases w <;>
    simp_all [identical, Double.identical]

namespace Eval.MakesData

theorem intern (name : String) : MakesData (Eval.intern name) where
  value hs h := by
    cases h
    exact ⟨⟨.single (.intern name), hs, id⟩, fun _ _ _ => rfl⟩
  failure _ h := by cases h
  settled _ h := by cases h

theorem embedded (n : Nat) : MakesData (Eval.embedded n) := by
  unfold Eval.embedded
  refine get (fun s => ?_) fun _ _ _ _ => rfl
  split
  · exact pure _
  · exact fail _

theorem valueOfLeaf (d : Leaf) : MakesData (Eval.valueOfLeaf d) := by
  cases d with
  | str text => exact new rfl
  | symbol name => exact (intern name).bind fun _ => pure _
  | keyword name => exact (intern name).bind fun _ => pure _
  | object n => exact embedded n
  | _ => exact pure _

end Eval.MakesData

namespace Template

variable {α β : Type} {s t : Session}

/-- A value is what a leaf denotes, where `objects` gives the objects that are mentioned. -/
def Denotes (objects : Nat → Option Value) (s : Session) : Leaf → Value → Prop
  | .nil, v => v = .nil
  | .bool b, v => v = .bool b
  | .int n, v => v = .int n
  | .float x, v => ∃ y, v = .float y ∧ x.identical y = true
  | .char c, v => v = .char c
  | .str text, v => ∃ a, v = .ref .str a ∧ s.heap.get? a = some (.str text)
  | .symbol name, v => ∃ x, v = .symbol x ∧ s.symbols.find? name = some x
  | .keyword name, v => ∃ x, v = .keyword x ∧ s.symbols.find? name = some x
  | .object n, v => ∃ u, objects n = some u ∧ u.identical v = true

/-- A literal comes to what it denotes, unless an object is refused. -/
def literal (objects : Nat → Option Value) (d : Leaf) : Course Value := fun s r =>
  (∃ v t, r = .value v t ∧ s.Idles t ∧ Denotes objects t d v) ∨ ∃ c : Cause, r = .failure c ∧ s.Refuses c

theorem settled_literal (objects : Nat → Option Value) (d : Leaf) : (literal objects d).Settled := by
  rintro s (⟨_, _, eq, -⟩ | ⟨_, eq, -⟩) <;> cases eq

/-- The value that a leaf stands for is one that it denotes. -/
theorem literal_valueOfLeaf {objects : Nat → Option Value} {d : Leaf} (hs : s.heap.Sound)
    (known : ∀ n, d = .object n → ∃ v, objects n = some v ∧ s.heap.embedded? n = some v) :
    literal objects d s (.of (Eval.valueOfLeaf d s)) := by
  have interned (name : String) : (s.symbols.intern name).1.find? name = some (s.symbols.intern name).2 :=
    s.symbols.find?_intern name
  cases d with
  | str text =>
    cases ran : Eval.newString text s with
    | ok v t =>
      obtain ⟨a, rfl, ho⟩ := Obeys.new_eq hs ran
      have makes : Eval.MakesData (Eval.newString text) := .new rfl
      exact .inl ⟨_, t, congrArg Ending.of ran, (makes.value hs ran).1.idles, a, rfl, ho⟩
    | error e t =>
      cases e with
      | fault f => exact .inr ⟨f.cause, congrArg Ending.of ran, Eval.MakesData.refused_of_new ran⟩
      | outOfFuel => exact absurd ran ((Eval.MakesData.new rfl).settled hs)
  | symbol name => exact .inl ⟨_, _, rfl, .single (.intern name), _, rfl, interned name⟩
  | keyword name => exact .inl ⟨_, _, rfl, .single (.intern name), _, rfl, interned name⟩
  | object n =>
    obtain ⟨v, given, found⟩ := known n rfl
    exact .inl ⟨v, s, congrArg Ending.of (Eval.embedded_eq_of_some found), .refl, v, given, v.identical_self⟩
  | float x => exact .inl ⟨_, s, rfl, .refl, x, rfl, Value.identical_self (.float x)⟩
  | _ => exact .inl ⟨_, s, rfl, .refl, rfl⟩

/-! ### Computations that take a course -/

namespace Course

/-- The course allows for a result, which is good if it is a value, or it does not say what happens. -/
def Admits (x : Course α) (good : Session → Prop) (s : Session) (r : EStateM.Result Stop Session α) : Prop :=
  x s .unsettled ∨ (x s (.of r) ∧ ∀ a t, r = .ok a t → good t)

namespace Admits

variable {x : Course α} {y : Eval α} {f : α → Course β} {g : α → Eval β} {good better : Session → Prop}

theorem pure {a : α} (h : good s) : Admits (Pure.pure a) good s ((Pure.pure a : Eval α) s) :=
  .inr ⟨rfl, fun _ _ same => by
    cases same
    exact h⟩

theorem bind (h : x.Admits good s (y s)) (hfg : ∀ a t, y s = .ok a t → good t → (f a).Admits better t (g a t)) :
    (x >>= f).Admits better s ((y >>= g) s) := by
  obtain unsettled | ⟨first, fine⟩ := h
  · exact .inl (.unsettled unsettled)
  cases ran : y s with
  | ok a t =>
    rw [ran] at first
    rw [Eval.bind_eq_of_ok ran]
    obtain unsettled | ⟨second, fine⟩ := hfg a t ran (fine a t ran)
    · exact .inl (.value first unsettled)
    · exact .inr ⟨.value first second, fine⟩
  | error e t =>
    rw [ran] at first
    rw [Eval.bind_eq_of_error ran]
    cases e with
    | fault f => exact .inr ⟨.failure first, nofun⟩
    | outOfFuel => exact .inl (.unsettled first)

theorem saving {vs : List Value} {r : EStateM.Result Stop Session α} (h : x.Admits good s r)
    (saves : ∀ a t, r = .ok a t → s.Saves vs t) : (saving vs x).Admits good s r := by
  obtain unsettled | ⟨taken, fine⟩ := h
  · exact .inl ⟨unsettled, nofun⟩
  · exact .inr ⟨⟨taken, fun a t same => saves a t (Ending.of_eq_value same)⟩, fine⟩

theorem pause (hs : s.heap.Sound) (vs : List Value) {r : EStateM.Result Stop Session α} (h : x.Admits good s r) :
    (Course.pause vs >>= fun _ => x).Admits good s r := by
  obtain unsettled | ⟨taken, fine⟩ := h
  · exact .inl (.value (Course.of_pause hs vs) unsettled)
  · exact .inr ⟨.value (Course.of_pause hs vs) taken, fine⟩

theorem le {r : EStateM.Result Stop Session α} {x' : Course α} (h : x.Admits good s r) (le : ∀ r, x s r → x' s r) :
    x'.Admits good s r :=
  h.imp (le _) fun ⟨taken, fine⟩ => ⟨le _ taken, fine⟩

/-- Something that imitates the making of data. -/
theorem imitates {y z : Eval α} (h : Eval.Imitates y z s) (hz : Eval.MakesData z) (hs : s.heap.Sound)
    (fine : ∀ t, s.Gains t → good t) : (act z).Admits good s (y s) := by
  obtain ⟨ok, failing⟩ := h.makes hz hs
  cases ran : z s with
  | ok a t =>
    have taken : act z s (.value a t) := (congrArg Ending.of ran).symm
    rw [ok a t ran]
    refine .inr ⟨taken, fun b u same => ?_⟩
    cases same
    exact fine _ (hz.value hs ran).1
  | error e t =>
    cases e with
    | fault f =>
      obtain ⟨g, u, failed, cause⟩ := failing f t ran
      rw [failed]
      refine .inr ⟨?_, nofun⟩
      change Ending.failure g.cause = Ending.of (z s)
      rw [ran, cause]
      rfl
    | outOfFuel => exact absurd ran (hz.settled hs)

end Admits

end Course

end Template

end TwinLisp
