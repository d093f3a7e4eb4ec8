import Std.Data.TreeMap.Lemmas
import TwinLisp.Value.Basic

/-!
# Scopes

A scope binds names to values and stands inside another scope, except for the root, which holds the
definitions of the whole session. Scopes are numbered as they are opened, the root being number zero,
and stay for good: a closure keeps the number of the scope it was made in, and sees the bindings
that this scope has when the closure runs.

## Main definitions

* `Scopes.lookup?` searches a scope and then the ones around it.
* `Scopes.define` binds a name in one scope.
* `Scopes.openIn` opens a new scope inside another.

## Main statements

* `Scopes.size_define`, `Scopes.size_openIn`: scopes are never closed.
-/

namespace TwinLisp

/-- A scope, by its number. -/
abbrev ScopeId := Nat

/-- The bindings of one scope. -/
structure Scope where
  /-- The bound values, by the position of the name. -/
  bindings : Std.TreeMap Nat Value
  /-- The scope around this one. -/
  parent : Option ScopeId

instance : Inhabited Scope := ⟨⟨∅, none⟩⟩

/-- All scopes of a session. -/
structure Scopes where
  /-- The scopes by number. -/
  all : Array Scope

namespace Scopes

/-- The root scope alone, without bindings. -/
def initial : Scopes := ⟨#[⟨∅, none⟩]⟩

/-- The number of the root scope. -/
def root : ScopeId := 0

/-- How many scopes there are. -/
def size (s : Scopes) : Nat := s.all.size

/-- Search the scope `i` and at most `fuel` scopes around it. -/
def lookupWithin (s : Scopes) (name : Symbol) : Nat → ScopeId → Option Value
  | 0, _ => none
  | fuel + 1, i =>
    match s.all[i]? with
    | none => none
    | some scope =>
      match scope.bindings[name.index]? with
      | some v => some v
      | none =>
        match scope.parent with
        | some p => lookupWithin s name fuel p
        | none => none

/-- The value of `name` in scope `i` or the nearest scope around it. A scope is opened after the one
around it, so there are no more steps to the root than scopes. -/
def lookup? (s : Scopes) (i : ScopeId) (name : Symbol) : Option Value :=
  s.lookupWithin name s.size i

/-- Bind `name` in scope `i`. -/
def define (s : Scopes) (i : ScopeId) (name : Symbol) (v : Value) : Scopes :=
  ⟨s.all.modify i fun scope => { scope with bindings := scope.bindings.insert name.index v }⟩

/-- Open a scope inside `parent`; its number is the number of scopes before. -/
def openIn (s : Scopes) (parent : ScopeId) : Scopes := ⟨s.all.push ⟨∅, some parent⟩⟩

/-- Whether scope `i` itself binds `name`. -/
def bindsHere (s : Scopes) (i : ScopeId) (name : Symbol) : Bool :=
  match s.all[i]? with
  | some scope => scope.bindings.contains name.index
  | none => false

@[simp] theorem size_define (s : Scopes) (i : ScopeId) (name : Symbol) (v : Value) :
    (s.define i name v).size = s.size := by
  simp [define, size]

@[simp] theorem size_openIn (s : Scopes) (parent : ScopeId) :
    (s.openIn parent).size = s.size + 1 := by
  simp [openIn, size]

end Scopes

end TwinLisp
