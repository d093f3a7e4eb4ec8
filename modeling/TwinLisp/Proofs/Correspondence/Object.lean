import TwinLisp.Heap.Object
import TwinLisp.Proofs.Correspondence.Ordered
import TwinLisp.Proofs.Heap.Depth
import TwinLisp.Proofs.Heap.Handles
import TwinLisp.Session.SymbolTable

/-!
# Corresponding objects

Two objects correspond if they are made in the same way of parts that correspond. Which functions
correspond depends on who runs them, and so does what the scopes of two sessions have to do with
each other. A *setting* fixes both, and some more: whether data on the heap corresponds one to one,
whether the second run may end its session on its own, which handles are new, and what old ones stood for.

## Main definitions

* `Setting`.
* `Object.Match`: what it is for two objects to correspond.
-/

namespace TwinLisp

/-- What corresponds in two tables of names: the symbols of one name. -/
def SymbolTable.Match (w : World) (σ τ : SymbolTable) : Prop :=
  ∀ x y : Symbol, w.sym x y ↔ ∃ name, σ.names[x.index]? = some name ∧ τ.names[y.index]? = some name

/-- What two sessions are compared for. -/
structure Setting where
  /-- Function bodies that do the same. -/
  body : World → FunctionBody → FunctionBody → Prop
  body_mono : ∀ {w w' b c}, w ≤ w' → body w b c → body w' b c
  /-- A native function corresponds to itself alone. -/
  native_left : ∀ {w n c}, body w (.native n) c ↔ c = .native n
  native_right : ∀ {w n b}, body w b (.native n) ↔ b = .native n
  body_eq : ∀ {w b c}, w.isSelf → body w b c → b = c
  /-- How the names and the scopes of two sessions fit together. -/
  scopes : World → SymbolTable → Scopes → SymbolTable → Scopes → Prop
  scopes_mono : ∀ {w w' σ r τ u}, w ≤ w' → w'.scope = w.scope → scopes w σ r τ u → scopes w' σ r τ u
  scopes_intern : ∀ {w σ r τ u} (name : String), scopes w σ r τ u →
    scopes w (σ.intern name).1 r (τ.intern name).1 u
  scopes_define : ∀ {w σ r τ u x y v v'}, σ.Match w τ → scopes w σ r τ u → w.sym x y →
    Value.Match w v v' → scopes w σ (r.define Scopes.root x v) τ (u.define Scopes.root y v')
  /-- Root bindings of the same name correspond. -/
  globals : ∀ {w σ r τ u}, scopes w σ r τ u → ∀ name : String,
    Option.Rel (Value.Match w) ((σ.find? name).bind (r.lookup? Scopes.root))
      ((τ.find? name).bind (u.lookup? Scopes.root))
  /-- Whether a session is compared with itself. -/
  isSelf : Prop
  /-- Whether data on the heap corresponds one to one, too. -/
  exact : Prop
  /-- Whether the second run may end its session where the first one does not. -/
  mayEndRight : Prop
  /-- The oldest handle that expansion may put into code. -/
  oldest : Nat
  /-- A heap whose handles still stand for what they stood for. -/
  since : Heap

/-- Two functions correspond. -/
structure Function.Match (S : Setting) (w : World) (f g : Function) : Prop where
  name : Option.Rel w.sym f.name g.name
  isMacro : f.isMacro = g.isMacro
  body : S.body w f.body g.body

/-- Two entries of maps correspond. -/
def Entry.Match (w : World) (e e' : Value × Value) : Prop := e.1.Match w e'.1 ∧ e.2.Match w e'.2

/-- Two objects correspond. -/
inductive Object.Match (S : Setting) (w : World) : Object → Object → Prop where
  | str (s : String) : Match S w (.str s) (.str s)
  | list {xs ys : List Value} (l : Location) : Value.MatchAll w xs ys → Match S w (.list xs l) (.list ys l)
  | vector {xs ys : List Value} (l : Location) : Value.MatchAll w xs ys →
    Match S w (.vector xs l) (.vector ys l)
  | map {m n : OrderedMap} : m.Match w (Entry.Match w) n → Match S w (.map m) (.map n)
  | set {s t : OrderedSet} : s.Match w (Value.Match w) t → Match S w (.set s) (.set t)
  | function {f g : Function} : f.Match S w g → Match S w (.function f) (.function g)
  | atom {v v' : Value} : v.Match w v' → Match S w (.atom v) (.atom v')
  | host (typeName : String) : Match S w (.host typeName) (.host typeName)

section

variable {S : Setting} {w w' : World}

theorem Entry.Match.mono {e e' : Value × Value} (h : Entry.Match w e e') (hw : w ≤ w') :
    Entry.Match w' e e' :=
  ⟨h.1.mono hw, h.2.mono hw⟩

theorem Function.Match.mono {f g : Function} (h : f.Match S w g) (hw : w ≤ w') : f.Match S w' g where
  name := Option.Rel.imp h.name fun _ _ => hw.sym
  isMacro := h.isMacro
  body := S.body_mono hw h.body

theorem Object.Match.mono {o o' : Object} (h : o.Match S w o') (hw : w ≤ w') : o.Match S w' o' := by
  cases h with
  | str s => exact .str s
  | list l h => exact .list l (Value.Match.all_mono h hw)
  | vector l h => exact .vector l (Value.Match.all_mono h hw)
  | map h => exact .map (h.mono hw fun _ _ h => h.mono hw)
  | set h => exact .set (h.mono hw fun _ _ h => h.mono hw)
  | function h => exact .function (h.mono hw)
  | atom h => exact .atom (h.mono hw)
  | host t => exact .host t

theorem Ordered.Match.value? {m n : OrderedMap} (h : m.Match w (Entry.Match w) n) (hw : w.Unique)
    {k l : Key} (hk : Key.Match w k l) : Option.Rel (Value.Match w) (m.value? k) (n.value? l) := by
  have found := h.get? hw hk
  unfold OrderedMap.value?
  generalize Ordered.get? m k = a at found ⊢
  generalize Ordered.get? n l = b at found ⊢
  cases found with
  | some he => exact .some he.2
  | none => exact .none

theorem Entry.Match.eq {e e' : Value × Value} (h : Entry.Match w e e') (hs : w.isSelf) : e = e' :=
  Prod.ext (h.1.eq hs) (h.2.eq hs)

theorem Function.Match.eq {f g : Function} (h : f.Match S w g) (hs : w.isSelf) : f = g := by
  obtain ⟨name, isMacro, body⟩ := f
  obtain ⟨name', isMacro', body'⟩ := g
  obtain ⟨hn, rfl, hb⟩ := h
  obtain rfl := S.body_eq hs hb
  cases hn with
  | none => rfl
  | some hx => rw [w.sym_eq hs hx]

/-- In a session that is compared with itself, objects correspond to themselves. -/
theorem Object.Match.eq {o o' : Object} (h : o.Match S w o') (hs : w.isSelf) : o = o' := by
  cases h with
  | str s => rfl
  | list l h => rw [Value.Match.all_eq h hs]
  | vector l h => rw [Value.Match.all_eq h hs]
  | map h => rw [h.eq hs]
  | set h => rw [h.eq hs]
  | function h => rw [h.eq hs]
  | atom h => rw [h.eq hs]
  | host t => rfl

theorem Object.Match.kind_eq {o o' : Object} (h : o.Match S w o') : o.kind = o'.kind := by
  cases h <;> rfl

end

/-! ### The data in an object -/

namespace Object

theorem Match.isIdentity_eq {S : Setting} {w : World} {o o' : Object} (h : o.Match S w o') :
    o.isIdentity = o'.isIdentity := by
  cases h <;> rfl

theorem Match.contents {S : Setting} {w : World} {o o' : Object} (h : o.Match S w o') :
    Value.MatchAll w o.contents o'.contents := by
  cases h with
  | list l h => exact h
  | vector l h => exact h
  | map h =>
    refine List.rel_flatMap h.toList fun e e' he => ?_
    exact .cons he.1 (.cons he.2 .nil)
  | set h => exact h.toList
  | _ => exact .nil

end Object

end TwinLisp
