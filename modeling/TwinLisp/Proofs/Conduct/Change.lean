import Mathlib.Logic.Relation
import TwinLisp.Proofs.Heap.Exactness
import TwinLisp.Proofs.Heap.Placement
import TwinLisp.Session.Data

/-!
# What evaluation does to a session

Whatever is evaluated, and by whichever evaluator, a session changes only in the few ways listed here.
Which functions are made, which names are bound at the root and which atoms are written depends on the
evaluator and on the code, and so does the way things fail; a *policy* says what is allowed.

A session is *sound* under a policy if every function on its heap is allowed, if every guarded name is
bound at the root to the native function it stands for, or else to a macro, and if collection is held back
where it is forbidden. Every change keeps a session
sound, so what has to be known about sessions is proved once for each change and not for each way to
evaluate something.

## Main definitions

* `Policy`, `Session.Change` and `Session.Sound`.
* `Session.Drifts`: changes that leave all counters alone except for the depth of calls.
* `Session.Leads`: changes that leave all counters alone.
* `Session.Strays`: changes after which counters may be anything.

## Main statements

* `Session.Sound.change`: every change keeps a session sound.
* `Session.sound_fresh`: where no names are guarded, sessions are sound to begin with.
-/

namespace TwinLisp

/-! ### Policies -/

/-- Defects of the heap, and not of an evaluator. -/
def Defect.IsOfHeap : Defect → Prop
  | .dangling _ | .unknownObject _ | .unexpectedObject _ _ => True
  | _ => False

/-- Malformations of templates, which are noticed by expansion and not by an evaluator. -/
def Malformation.IsOfTemplate : Malformation → Prop
  | .takesOneForm | .spliceOutsideList => True
  | _ => False

/-- Causes that do not depend on how code is evaluated: no form is malformed, and no evaluator is broken. -/
def Cause.IsOrdinary : Cause → Prop
  | .malformed _ _ => False
  | .codeTooLarge _ => False
  | .defect d => d.IsOfHeap
  | _ => True

/-- What evaluation may do. -/
structure Policy where
  /-- The functions that may be on the heap. -/
  admits : Function → Prop
  /-- The native function that a guarded name stands for. -/
  guarded : Symbol → Option Native
  /-- The causes that a failure may have. -/
  mayFail : Cause → Prop
  /-- The atoms that may be written. -/
  writes : Address → Prop := fun _ => True
  /-- Whether collection is forbidden throughout. -/
  quiet : Prop := False
  /-- The first scope that may get bindings, apart from the root. -/
  frozen : Nat := 0
  /-- Whether the operands of the machines that wait are left as they are. -/
  restores : Prop := True
  native {f : Function} {n : Native} : f.body = .native n → admits f
  ordinary {c : Cause} : c.IsOrdinary → mayFail c

/-- Templates may be found malformed, when code is expanded or by a function that expands code. -/
class Policy.Expands (P : Policy) : Prop where
  malformed (form : String) {what : Malformation} : what.IsOfTemplate → P.mayFail (.malformed form what)

/-- Names may be bound in the scope, which is not the root. -/
def Policy.Binds (P : Policy) (i : ScopeId) : Prop := i ≠ Scopes.root ∧ P.frozen ≤ i

/-- The same policy, except for the causes of failures. -/
def Policy.failing (P : Policy) (mayFail : Cause → Prop) (h : ∀ {c}, c.IsOrdinary → mayFail c) :
    Policy :=
  { P with mayFail, ordinary := h }

/-! ### Changes -/

namespace Session

/-- The value is a function that is a macro or the native function `n`. -/
def Denotes (s : Session) (v : Value) (n : Native) : Prop :=
  ∃ a f, v = .ref .function a ∧ s.heap.get? a = some (.function f) ∧
    (f.isMacro = true ∨ f.body = .native n)

/-- One change of a session. -/
inductive Change (P : Policy) (s : Session) : Session → Prop where
  | intern (name : String) : Change P s { s with symbols := (s.symbols.intern name).1 }
  | generate (n : Nat) : Change P s { s with generated := n }
  | write (output : String) : Change P s { s with output }
  | terminate : Change P s { s with terminated := true }
  | openScope (parent : ScopeId) : Change P s { s with scopes := s.scopes.openIn parent }
  | define {i : ScopeId} (hi : P.Binds i) (name : Symbol) (v : Value) :
    Change P s { s with scopes := s.scopes.define i name v }
  | defineGlobal {name : Symbol} {v : Value} (h : ∀ n, P.guarded name = some n → s.Denotes v n) :
    Change P s { s with scopes := s.scopes.define Scopes.root name v }
  | place {o : Object} (h : ∀ f, o = .function f → P.admits f) :
    Change P s { s with heap := (s.heap.place o).1 }
  | setAtom {a : Address} {w : Value} (h : s.heap.get? a = some (.atom w)) (ha : P.writes a) (v : Value) :
    Change P s { s with heap := s.heap.set a (.atom v) }
  | embed (v : Value) : Change P s { s with heap := (s.heap.embed v).1 }
  | setFloor (floor : Option Nat) : Change P s { s with heap := { s.heap with floor } }
  | collect (h : ¬ P.quiet) (roots : List Node) : Change P s (s.collectGarbage roots).1
  | pins (pins : Std.TreeMap Nat Value) (nextPin : Nat) : Change P s { s with pins, nextPin }
  | inhibit (n : Nat) (h : P.quiet → 0 < n) : Change P s { s with inhibited := n }
  | lend (operands : Array Value) : Change P s { s with operands }
  | counters (callDepth nesting : Nat) (attribution : Attribution) :
    Change P s { s with callDepth, nesting, attribution }

/-- Any number of changes. -/
def Evolves (P : Policy) : Session → Session → Prop := Relation.ReflTransGen (Change P)

/-- Changes after which all counters are as before, except perhaps for the depth of calls. -/
structure Drifts (P : Policy) (s t : Session) : Prop where
  evolves : Evolves P s t
  inhibited : t.inhibited = s.inhibited
  nesting : t.nesting = s.nesting
  attribution : t.attribution = s.attribution
  floor : t.heap.floor = s.heap.floor
  operands : P.restores → t.operands = s.operands

/-- Changes after which all counters are as before. -/
structure Leads (P : Policy) (s t : Session) : Prop extends Drifts P s t where
  callDepth : t.callDepth = s.callDepth

/-- The same is on the heap, in the table of names and in the scopes. -/
structure Coincides (s t : Session) : Prop where
  slots : t.heap.slots = s.heap.slots
  symbols : t.symbols = s.symbols
  scopes : t.scopes = s.scopes

/-- Changes that were broken off: counters may be anything afterwards. -/
def Strays (P : Policy) (s t : Session) : Prop := ∃ u, Evolves P s u ∧ u.Coincides t

/-- The session keeps to the policy. -/
structure Sound (P : Policy) (s : Session) : Prop where
  heap : s.heap.Sound
  functions {a : Address} {f : Function} : s.heap.get? a = some (.function f) → P.admits f
  /-- Guarded names are names of core operators. -/
  names {name : Symbol} {n : Native} : P.guarded name = some n →
    ∃ text, (CoreOp.ofName? text).isSome = true ∧ s.symbols.find? text = some name
  root : ∃ scope, s.scopes.all[Scopes.root]? = some scope ∧
    ∀ {name n}, P.guarded name = some n → ∃ v, scope.bindings[name.index]? = some v ∧ s.Denotes v n
  /-- A collection that is forbidden is held back. -/
  inhibited : P.quiet → 0 < s.inhibited
  /-- Names may be bound in new scopes. -/
  scopes : P.frozen ≤ s.scopes.size

variable {P : Policy} {s t u : Session}

/-! ### What a change does to the parts of a session -/

namespace Change

/-- Only a collection loses functions, and then those that cannot be reached. -/
theorem get?_function (h : Change P s t) (hs : s.heap.Sound) {a : Address} {f : Function}
    (hf : s.heap.get? a = some (.function f))
    (kept : ∀ roots, s.heap.Reaches s.scopes (s.ownRoots ++ roots) (.object a)) :
    t.heap.get? a = some (.function f) := by
  cases h with
  | place h =>
    have known := Heap.known_of_get? hf
    simpa [Heap.get?_place_of_known _ hs known] using hf
  | @setAtom b w hw _ v =>
    have ne : a ≠ b := by
      rintro rfl
      simp [hf] at hw
    simpa [Heap.get?_set, ne] using hf
  | collect _ roots => exact (Heap.get?_collect ..).2 ⟨hf, kept roots⟩
  | _ => exact hf

/-- The names of the table keep their symbols. -/
theorem find? (h : Change P s t) {text : String} {name : Symbol}
    (hn : s.symbols.find? text = some name) : t.symbols.find? text = some name := by
  cases h with
  | intern other => exact s.symbols.find?_intern_of_find? other hn
  | _ => exact hn

end Change

theorem Evolves.find? (h : Evolves P s t) {text : String} {name : Symbol}
    (hn : s.symbols.find? text = some name) : t.symbols.find? text = some name := by
  induction h with
  | refl => exact hn
  | tail _ change ih => exact change.find? ih

/-! ### Sound sessions stay sound -/

/-- What a name is bound to at the root is reachable from the roots of the session. -/
theorem reaches_global {scope : Scope} {name : Symbol} {a : Address} {k : Kind}
    (hr : s.scopes.all[Scopes.root]? = some scope)
    (hv : scope.bindings[name.index]? = some (.ref k a)) (roots : List Node) :
    s.heap.Reaches s.scopes (s.ownRoots ++ roots) (.object a) := by
  have root : s.heap.Reaches s.scopes (s.ownRoots ++ roots) (.scope Scopes.root) :=
    .root (by simp [ownRoots])
  exact root.step (.binding hr hv)

theorem global?_eq {name : Symbol} {scope : Scope} {v : Value}
    (hr : s.scopes.all[Scopes.root]? = some scope) (hv : scope.bindings[name.index]? = some v) :
    s.global? name = some v := by
  obtain ⟨size, hsize⟩ : ∃ n, s.scopes.size = n + 1 := by
    have bound := (Array.getElem?_eq_some_iff.1 hr).1
    exact ⟨s.scopes.all.size - 1, by simp only [Scopes.size]; omega⟩
  simp [global?, Scopes.lookup?, hsize, Scopes.lookupWithin, hr, hv]

namespace Sound

variable (h : s.Sound P)
include h

theorem root_pos : 0 < s.scopes.size := by
  obtain ⟨scope, hr, -⟩ := h.root
  exact (Array.getElem?_eq_some_iff.1 hr).1

/-- A guarded name is bound to what it stands for, or to a macro. -/
theorem guarded {name : Symbol} {n : Native} (hn : P.guarded name = some n) :
    ∃ v, s.global? name = some v ∧ s.Denotes v n := by
  obtain ⟨scope, hr, bound⟩ := h.root
  obtain ⟨v, hv, hd⟩ := bound hn
  exact ⟨v, global?_eq hr hv, hd⟩

theorem change_heap (hc : Change P s t) : t.heap.Sound := by
  cases hc with
  | place _ => exact h.heap.place _
  | setAtom _ _ v => exact h.heap.set _ _
  | embed v => exact ⟨h.heap.nodup, h.heap.empty_of_mem⟩
  | setFloor floor => exact ⟨h.heap.nodup, h.heap.empty_of_mem⟩
  | collect _ roots => exact h.heap.sweep _
  | _ => exact h.heap

theorem change_functions (hc : Change P s t) {a : Address} {f : Function}
    (hf : t.heap.get? a = some (.function f)) : P.admits f := by
  cases hc with
  | @place o ho =>
    rw [Heap.get?_place _ _ h.heap] at hf
    split at hf
    · exact ho f (Option.some.inj hf)
    · exact h.functions hf
  | setAtom hw _ v =>
    rw [Heap.get?_set] at hf
    split at hf
    · obtain ⟨-, -, e⟩ := Option.map_eq_some_iff.1 hf
      cases e
    · exact h.functions hf
  | collect _ roots => exact h.functions ((Heap.get?_collect ..).1 hf).1
  | _ => exact h.functions hf

/-- Guarded names stay bound to what they stand for: nothing else is bound to them, and what they are
bound to stays on the heap. -/
theorem change_root (hc : Change P s t) : ∃ scope, t.scopes.all[Scopes.root]? = some scope ∧
    ∀ {name n}, P.guarded name = some n →
      ∃ v, scope.bindings[name.index]? = some v ∧ t.Denotes v n := by
  obtain ⟨scope, hr, bound⟩ := h.root
  have kept : ∀ {name n}, P.guarded name = some n →
      ∃ v, scope.bindings[name.index]? = some v ∧ t.Denotes v n := by
    intro name n hn
    obtain ⟨v, hv, a, f, rfl, hf, hfn⟩ := bound hn
    exact ⟨_, hv, a, f, rfl, hc.get?_function h.heap hf (reaches_global hr hv), hfn⟩
  cases hc with
  | openScope parent =>
    refine ⟨scope, ?_, kept⟩
    have size := (Array.getElem?_eq_some_iff.1 hr).1
    simp only [Scopes.openIn]
    rw [Array.getElem?_push, if_neg (by omega), hr]
  | @define i hi name v =>
    refine ⟨scope, ?_, kept⟩
    simp [Scopes.define, Array.getElem?_modify, hr, hi.1]
  | @defineGlobal name v hv =>
    refine ⟨{ scope with bindings := scope.bindings.insert name.index v }, ?_, ?_⟩
    · simp [Scopes.define, Array.getElem?_modify, hr]
    · intro other n hn
      by_cases e : name.index = other.index
      · obtain rfl : name = other := by
          cases name
          cases other
          exact congrArg Symbol.mk e
        exact ⟨v, by simp, hv n hn⟩
      · obtain ⟨w, hw, hd⟩ := kept hn
        exact ⟨w, by simpa [Std.TreeMap.getElem?_insert, e] using hw, hd⟩
  | _ => exact ⟨scope, hr, kept⟩

theorem change_inhibited (hc : Change P s t) : P.quiet → 0 < t.inhibited := by
  cases hc with
  | inhibit n hn => exact hn
  | _ => exact h.inhibited

theorem change_scopes (hc : Change P s t) : P.frozen ≤ t.scopes.size := by
  refine Nat.le_trans h.scopes ?_
  cases hc with
  | openScope parent => simp
  | define hi name v => simp
  | defineGlobal hv => simp
  | _ => exact Nat.le_refl _

/-- **Every change keeps a session sound.** -/
theorem change (hc : Change P s t) : t.Sound P where
  heap := h.change_heap hc
  functions := h.change_functions hc
  names hn := by
    obtain ⟨text, core, ht⟩ := h.names hn
    exact ⟨text, core, hc.find? ht⟩
  root := h.change_root hc
  inhibited := h.change_inhibited hc
  scopes := h.change_scopes hc

theorem evolves (he : Evolves P s t) : t.Sound P := by
  induction he with
  | refl => exact h
  | tail _ hc ih => exact ih.change hc

end Sound

/-- Nothing is wrong with a session in which nothing has happened, unless names are guarded, collection is forbidden or
scopes may not get bindings. -/
theorem sound_fresh (hP : ∀ name, P.guarded name = none) (hq : ¬ P.quiet) (hf : P.frozen = 0) (limits : Limits) :
    (fresh limits).Sound P where
  heap := Heap.sound_empty _
  functions h := by
    rw [show (fresh limits).heap = .empty (some limits.objects) from rfl, Heap.get?_empty] at h
    cases h
  names h := by
    rw [hP] at h
    cases h
  root := ⟨_, rfl, fun h => by
    rw [hP] at h
    cases h⟩
  inhibited h := absurd h hq
  scopes := hf ▸ Nat.zero_le _

/-! ### Changes one after the other -/

theorem Evolves.single (h : Change P s t) : Evolves P s t := Relation.ReflTransGen.single h

namespace Drifts

theorem refl (s : Session) : s.Drifts P s := ⟨.refl, rfl, rfl, rfl, rfl, fun _ => rfl⟩

theorem trans (h : s.Drifts P t) (h' : t.Drifts P u) : s.Drifts P u where
  evolves := Relation.ReflTransGen.trans h.evolves h'.evolves
  inhibited := h'.inhibited.trans h.inhibited
  nesting := h'.nesting.trans h.nesting
  attribution := h'.attribution.trans h.attribution
  floor := h'.floor.trans h.floor
  operands hr := (h'.operands hr).trans (h.operands hr)

/-- The depth of calls may be set to anything. -/
theorem setCallDepth (h : s.Drifts P t) (n : Nat) : s.Drifts P { t with callDepth := n } where
  evolves := h.evolves.tail (.counters n t.nesting t.attribution)
  inhibited := h.inhibited
  nesting := h.nesting
  attribution := h.attribution
  floor := h.floor
  operands := h.operands

end Drifts

namespace Leads

theorem refl (s : Session) : s.Leads P s := ⟨.refl s, rfl⟩

theorem trans (h : s.Leads P t) (h' : t.Leads P u) : s.Leads P u :=
  ⟨h.toDrifts.trans h'.toDrifts, h'.callDepth.trans h.callDepth⟩

theorem sound (h : s.Leads P t) (hs : s.Sound P) : t.Sound P := hs.evolves h.evolves

end Leads

@[refl] theorem Coincides.refl (s : Session) : s.Coincides s := ⟨rfl, rfl, rfl⟩

theorem Coincides.trans (h : s.Coincides t) (h' : t.Coincides u) : s.Coincides u :=
  ⟨h'.slots.trans h.slots, h'.symbols.trans h.symbols, h'.scopes.trans h.scopes⟩

namespace Strays

theorem refl (s : Session) : s.Strays P s := ⟨s, .refl, .refl s⟩

theorem of_evolves (h : Evolves P s t) : s.Strays P t := ⟨t, h, .refl t⟩

theorem after (h : Evolves P s t) (h' : t.Strays P u) : s.Strays P u :=
  have ⟨v, hv, hu⟩ := h'
  ⟨v, h.trans hv, hu⟩

theorem coincides (h : s.Strays P t) (h' : t.Coincides u) : s.Strays P u :=
  have ⟨v, hv, ht⟩ := h
  ⟨v, hv, ht.trans h'⟩

end Strays

end Session

end TwinLisp
