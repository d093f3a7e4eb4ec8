import TwinLisp.Proofs.Conduct.Keeping
import TwinLisp.Proofs.Expansion.Expanded

/-!
# Steady computations

Most of what expansion does itself, making names and turning code into values and back, cannot change the
macros of a session, as long as whatever is bound at the root is known to the session: a name that is new is
not bound there, and no object takes the place of a macro.

## Main definitions

* `Session.HasMacros`: the macros of a session, where all that is bound at the root is known.
* `Eval.Steadily`: a computation leaves the macros of a session alone, and its result has a property.

## Main statements

* `Session.HasMacros.intern`, `Session.HasMacros.place`: names and objects are added without harm.
* `Eval.Steadily.valuesOfForms`: code is turned into values without harm.
-/

namespace TwinLisp

variable {macros : String → Option Value}

/-! ### Sessions with macros -/

/-- The macros of the session are the given ones, and what is bound at the root is known: the names are in the
table, and objects that are gone leave their addresses unused. -/
structure Session.HasMacros (macros : String → Option Value) (s : Session) : Prop where
  heap : s.heap.Sound
  names {x : Symbol} {v : Value} : s.global? x = some v → s.symbols.Has x
  objects {x : Symbol} {v : Value} {a : Address} : s.global? x = some v → v.address? = some a → s.heap.Known a
  macros : s.macro? = macros

namespace SymbolTable

variable {t : SymbolTable} {x : Symbol}

theorem find?_of_has (h : t.Has x) : t.find? (t.name x) = some x := by
  have stands : t.names[x.index]? = some (t.name x) := by
    rw [SymbolTable.name, Array.getElem?_eq_getElem h]
    rfl
  rw [find?, (t.coherent _ _).2 stands]
  rfl

/-- A new name does not take a symbol that is in the table. -/
theorem find?_intern_iff (h : t.Has x) (name other : String) :
    (t.intern name).1.find? other = some x ↔ t.find? other = some x := by
  refine ⟨fun found => ?_, find?_intern_of_find? name⟩
  rw [← name_of_find? found, name_intern h]
  exact find?_of_has h

end SymbolTable

namespace Session.HasMacros

variable {s : Session}

theorem intern (h : s.HasMacros macros) (name : String) :
    HasMacros macros { s with symbols := (s.symbols.intern name).1 } := by
  refine ⟨h.heap, fun bound => (h.names bound).intern name, h.objects, ?_⟩
  rw [← h.macros]
  funext other
  have same :
      ((s.symbols.intern name).1.find? other).bind s.global? = (s.symbols.find? other).bind s.global? := by
    ext v
    simp only [Option.bind_eq_some_iff]
    exact exists_congr fun x => and_congr_left fun bound =>
      SymbolTable.find?_intern_iff (h.names bound) name other
  exact congrArg (Option.bind · s.heap.macro?) same

theorem place (h : s.HasMacros macros) (o : Object) :
    HasMacros macros { s with heap := (s.heap.place o).1 } := by
  refine ⟨h.heap.place o, h.names, fun bound address => (h.objects bound address).place o h.heap, ?_⟩
  rw [← h.macros]
  funext name
  refine Option.bind_congr fun v found => ?_
  obtain ⟨x, -, bound⟩ := Option.bind_eq_some_iff.1 found
  have same : (s.heap.place o).1.objectOf? v = s.heap.objectOf? v :=
    Option.bind_congr fun a address => Heap.get?_place_of_known o h.heap (h.objects bound address)
  unfold Heap.macro?
  rw [same]

end Session.HasMacros

/-- Nothing is bound in a session in which nothing has happened. -/
theorem Session.hasMacros_fresh (limits : Limits) : (fresh limits).HasMacros fun _ => none := by
  have none (x : Symbol) : (fresh limits).global? x = none := by
    change Scopes.initial.lookupWithin x 1 Scopes.root = .none
    simp [Scopes.lookupWithin, Scopes.initial, Scopes.root]
  refine ⟨Heap.sound_empty _, fun {x v} bound => ?_, fun {x v a} bound => ?_, ?_⟩
  · rw [none] at bound
    cases bound
  · rw [none] at bound
    cases bound
  · funext name
    rw [macro?, funext none, Option.bind_fun_none]
    rfl

/-! ### Steady computations -/

namespace Eval

variable {α β : Type}

/-- If the computation succeeds in a session with the given macros, the session still has them, and the result
has a property. -/
def Steadily (macros : String → Option Value) (x : Eval α) (Q : α → Prop) : Prop :=
  ∀ s a t, s.HasMacros macros → x s = .ok a t → t.HasMacros macros ∧ Q a

namespace Steadily

variable {Q : α → Prop} {R : β → Prop}

theorem pure {a : α} (ha : Q a) : Steadily macros (Pure.pure a) Q := by
  intro s b t hs h
  cases h
  exact ⟨hs, ha⟩

theorem fail {f : Fault} : Steadily macros (Eval.fail f) Q := by
  intro s a t _ h
  cases h

theorem get {f : Session → Eval α} (h : ∀ s, Steadily macros (f s) Q) : Steadily macros (get >>= f) Q :=
  fun s a t hs hx => h s s a t hs hx

theorem bind {x : Eval α} {f : α → Eval β} (hx : Steadily macros x Q)
    (hf : ∀ a, Q a → Steadily macros (f a) R) : Steadily macros (x >>= f) R := by
  intro s b u hs h
  cases hr : x s with
  | ok a t =>
    rw [bind_eq_of_ok hr] at h
    obtain ⟨ht, ha⟩ := hx s a t hs hr
    exact hf a ha t b u ht h
  | error e t =>
    rw [bind_eq_of_error hr] at h
    cases h

theorem andThen {x : Eval α} {f : α → Eval β} (hx : Steadily macros x fun _ => True)
    (hf : ∀ a, Steadily macros (f a) R) : Steadily macros (x >>= f) R :=
  hx.bind fun a _ => hf a

theorem imp {Q' : α → Prop} {x : Eval α} (h : Steadily macros x Q) (hQ : ∀ a, Q a → Q' a) :
    Steadily macros x Q' :=
  fun s a t hs hx => (h s a t hs hx).imp_right (hQ a)

theorem generateName (start : String) : Steadily macros (Eval.generateName start) fun _ => True := by
  intro s a t hs h
  cases h
  exact ⟨⟨hs.heap, hs.names, hs.objects, hs.macros⟩, trivial⟩

theorem always {x : Eval α} (h : Steadily macros x Q) {after : Session → Session}
    (ha : ∀ t, t.HasMacros macros → (after t).HasMacros macros) :
    Steadily macros (Eval.always after x) Q := by
  intro s a t hs hx
  unfold Eval.always at hx
  cases hr : x s with
  | ok b u =>
    rw [hr] at hx
    cases hx
    exact (h s a u hs hr).imp_left (ha u)
  | error e u =>
    rw [hr] at hx
    cases hx

theorem withoutCollection {x : Eval α} (h : Steadily macros x Q) :
    Steadily macros (Eval.withoutCollection x) Q := by
  refine fun s a t hs hx => (h.always fun t ht => ?_) { s with inhibited := s.inhibited + 1 } a t ?_ hx
  · exact ⟨ht.heap, ht.names, ht.objects, ht.macros⟩
  · exact ⟨hs.heap, hs.names, hs.objects, hs.macros⟩

/-! ### Code as values -/

theorem intern (name : String) : Steadily macros (Eval.intern name) fun _ => True := by
  intro s x t hs h
  cases h
  exact ⟨hs.intern name, trivial⟩

theorem new (o : Object) : Steadily macros (Eval.new o) fun _ => True := by
  have alive : Steadily macros checkAlive fun _ => True := get fun s => by
    split
    · exact fail
    · exact pure trivial
  refine (alive.andThen fun _ s a t hs h => ?_).andThen fun _ => pure trivial
  dsimp only at h
  split at h <;> cases h
  exact ⟨hs.place o, trivial⟩

theorem keyOf (v : Value) : Steadily macros (Eval.keyOf v) fun _ => True := by
  refine get fun s => ?_
  unfold resolving
  split
  · exact pure trivial
  · exact fail

theorem foldlM {f : β → α → Eval β} (h : ∀ b x, Steadily macros (f b x) fun _ => True) (b : β) (xs : List α) :
    Steadily macros (xs.foldlM f b) fun _ => True := by
  induction xs generalizing b with
  | nil => exact pure trivial
  | cons x xs ih =>
    rw [List.foldlM_cons]
    exact (h b x).andThen ih

theorem valueOfLeaf (d : Leaf) : Steadily macros (Eval.valueOfLeaf d) fun _ => True := by
  cases d with
  | str text => exact new _
  | symbol name => exact (intern name).andThen fun _ => pure trivial
  | keyword name => exact (intern name).andThen fun _ => pure trivial
  | object handle =>
    refine get fun s => ?_
    split
    · exact pure trivial
    · exact fail
  | _ => exact pure trivial

theorem valueOfGroup (b : Bracket) (items : List Value) (l : Location) :
    Steadily macros (Eval.valueOfGroup b items l) fun _ => True := by
  cases b with
  | list => exact new _
  | vector => exact new _
  | map => exact (foldlM (fun _ _ => (keyOf _).andThen fun _ => pure trivial) _ _).andThen fun _ => new _
  | set => exact (foldlM (fun _ _ => (keyOf _).andThen fun _ => pure trivial) _ _).andThen fun _ => new _

mutual

theorem valueOfForm : (f : Form) → Steadily macros (Eval.valueOfForm f) fun _ => True
  | .leaf d _ => by
    rw [Eval.valueOfForm]
    exact valueOfLeaf d
  | .group b items l => by
    rw [Eval.valueOfForm]
    exact (valuesOfForms items).andThen fun vs => valueOfGroup b vs l

theorem valuesOfForms : (fs : List Form) → Steadily macros (Eval.valuesOfForms fs) fun _ => True
  | [] => by
    rw [Eval.valuesOfForms]
    exact pure trivial
  | f :: fs => by
    rw [Eval.valuesOfForms]
    exact (valueOfForm f).andThen fun _ => (valuesOfForms fs).andThen fun _ => pure trivial

end

end Steadily

end Eval

end TwinLisp
