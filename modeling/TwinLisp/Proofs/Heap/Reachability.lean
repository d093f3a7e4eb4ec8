import TwinLisp.Heap.Collection
import TwinLisp.Proofs.Collection.Ordered

/-!
# Reachability

What a collection is meant to keep, said without reference to how it marks. An object leads to what it
holds, a closure to the scope it was made in and to the objects that its body mentions, a scope to what
it binds and to the scope around it, and a handle to the value registered under it. A node is reachable
if a chain of such links leads to it from a root or from a handle that counts as in use.

`Heap.references` computes the links of one node. It is proved here to give exactly these.

## Main definitions

* `Heap.Edge` has one rule for every kind of link.
* `Heap.Reaches` is reachability from some roots.

## Main statements

* `Heap.mem_references_iff`: the computed links are the links.
-/

namespace TwinLisp

/-! ### Constants of compiled functions -/

mutual

/-- A constant of a prototype or of a prototype inside it. -/
inductive Prototype.HasConstant : Prototype → Value → Prop where
  | inArity {name : Option Symbol} {label : Option String} {captures : List Capture}
      {arities : List (ArityCode Prototype)} {v : Value} (h : HasConstantInArities arities v) :
      HasConstant (.mk name label captures arities) v

/-- A constant of the code of some parameter lists. -/
inductive Prototype.HasConstantInArities : List (ArityCode Prototype) → Value → Prop where
  | here {params : Nat} {hasRest : Bool} {code : Array Instruction} {locations : Array Location}
      {constants : Array Value} {sites : Array (List Location)} {prototypes : List Prototype}
      {rest : List (ArityCode Prototype)} {v : Value} (h : v ∈ constants) :
      HasConstantInArities
        (⟨params, hasRest, code, locations, constants, sites, prototypes⟩ :: rest) v
  | inner {params : Nat} {hasRest : Bool} {code : Array Instruction} {locations : Array Location}
      {constants : Array Value} {sites : Array (List Location)} {prototypes : List Prototype}
      {rest : List (ArityCode Prototype)} {v : Value} (h : HasConstantInAll prototypes v) :
      HasConstantInArities
        (⟨params, hasRest, code, locations, constants, sites, prototypes⟩ :: rest) v
  | later {a : ArityCode Prototype} {rest : List (ArityCode Prototype)} {v : Value}
      (h : HasConstantInArities rest v) : HasConstantInArities (a :: rest) v

/-- A constant of some prototypes. -/
inductive Prototype.HasConstantInAll : List Prototype → Value → Prop where
  | head {p : Prototype} {ps : List Prototype} {v : Value} (h : HasConstant p v) :
      HasConstantInAll (p :: ps) v
  | tail {p : Prototype} {ps : List Prototype} {v : Value} (h : HasConstantInAll ps v) :
      HasConstantInAll (p :: ps) v

end

namespace Prototype

mutual

theorem mem_values_iff (v : Value) : (p : Prototype) → (v ∈ p.values ↔ HasConstant p v)
  | .mk _ _ _ arities => by
    rw [values, mem_arityValues_iff v arities]
    constructor
    · exact .inArity
    · rintro ⟨h⟩
      exact h

theorem mem_arityValues_iff (v : Value) :
    (as : List (ArityCode Prototype)) → (v ∈ arityValues as ↔ HasConstantInArities as v)
  | [] => by
    rw [arityValues]
    exact ⟨fun h => (List.not_mem_nil h).elim, nofun⟩
  | ⟨_, _, _, _, constants, _, prototypes⟩ :: rest => by
    rw [arityValues, List.mem_append, List.mem_append, mem_valuesOf_iff v prototypes,
      mem_arityValues_iff v rest, Array.mem_toList_iff]
    constructor
    · rintro ((h | h) | h)
      · exact .here h
      · exact .inner h
      · exact .later h
    · intro h
      cases h with
      | here h => exact .inl (.inl h)
      | inner h => exact .inl (.inr h)
      | later h => exact .inr h

theorem mem_valuesOf_iff (v : Value) :
    (ps : List Prototype) → (v ∈ valuesOf ps ↔ HasConstantInAll ps v)
  | [] => by
    rw [valuesOf]
    exact ⟨fun h => (List.not_mem_nil h).elim, nofun⟩
  | p :: ps => by
    rw [valuesOf, List.mem_append, mem_values_iff v p, mem_valuesOf_iff v ps]
    constructor
    · rintro (h | h)
      · exact .head h
      · exact .tail h
    · intro h
      cases h with
      | head h => exact .inl h
      | tail h => exact .inr h

end

end Prototype

/-! ### Links -/

namespace Node

theorem mem_ofValue_iff {n : Node} {v : Value} :
    n ∈ ofValue v ↔ ∃ k a, v = .ref k a ∧ n = .object a := by
  cases v <;> simp [ofValue, and_assoc]

theorem mem_ofValues_iff {n : Node} {vs : List Value} :
    n ∈ ofValues vs ↔ ∃ k a, .ref k a ∈ vs ∧ n = .object a := by
  simp only [ofValues, List.mem_flatMap, mem_ofValue_iff]
  constructor
  · rintro ⟨v, hv, k, a, rfl, rfl⟩
    exact ⟨k, a, hv, rfl⟩
  · rintro ⟨k, a, hv, rfl⟩
    exact ⟨_, hv, k, a, rfl, rfl⟩

end Node

/-- The value `v` is part of the object `o`. -/
inductive Object.Holds : Object → Value → Prop where
  | listItem {items : List Value} {l : Location} {v : Value} (h : v ∈ items) :
      Holds (.list items l) v
  | vectorItem {items : List Value} {l : Location} {v : Value} (h : v ∈ items) :
      Holds (.vector items l) v
  | mapKey {m : OrderedMap} {k v : Value} (h : (k, v) ∈ m.toList) : Holds (.map m) k
  | mapValue {m : OrderedMap} {k v : Value} (h : (k, v) ∈ m.toList) : Holds (.map m) v
  | member {s : OrderedSet} {v : Value} (h : v ∈ s.toList) : Holds (.set s) v
  | content {v : Value} : Holds (.atom v) v
  | captured {name : Option Symbol} {isMacro : Bool} {p : Prototype} {captured : Array Value}
      {v : Value} (h : v ∈ captured) : Holds (.function ⟨name, isMacro, .compiled p captured⟩) v
  | constant {name : Option Symbol} {isMacro : Bool} {p : Prototype} {captured : Array Value}
      {v : Value} (h : p.HasConstant v) : Holds (.function ⟨name, isMacro, .compiled p captured⟩) v

namespace Heap

/-- Following one link leads from one node to the other. -/
inductive Edge (h : Heap) (scopes : Scopes) : Node → Node → Prop where
  /-- An object leads to the objects it holds. -/
  | part {a b : Address} {o : Object} {k : Kind} (ho : h.get? a = some o) (hv : o.Holds (.ref k b)) :
      Edge h scopes (.object a) (.object b)
  /-- A closure leads to the scope it was made in. -/
  | closureScope {a : Address} {name : Option Symbol} {isMacro : Bool} {c : Closure}
      (ho : h.get? a = some (.function ⟨name, isMacro, .interpreted c⟩)) :
      Edge h scopes (.object a) (.scope c.scope)
  /-- A closure leads to the handles that its body mentions. -/
  | mention {a : Address} {name : Option Symbol} {isMacro : Bool} {c : Closure}
      {o : ClosureOverload} {handle : Nat}
      (ho : h.get? a = some (.function ⟨name, isMacro, .interpreted c⟩)) (hc : o ∈ c.overloads)
      (hm : handle ∈ Form.handlesOf o.body) : Edge h scopes (.object a) (.handle handle)
  /-- A scope leads to what it binds. -/
  | binding {i : ScopeId} {s : Scope} {name : Nat} {k : Kind} {b : Address}
      (hs : scopes.all[i]? = some s) (hv : s.bindings[name]? = some (.ref k b)) :
      Edge h scopes (.scope i) (.object b)
  /-- A scope leads to the scope around it. -/
  | parent {i j : ScopeId} {s : Scope} (hs : scopes.all[i]? = some s) (hp : s.parent = some j) :
      Edge h scopes (.scope i) (.scope j)
  /-- A handle leads to the value registered under it. -/
  | registered {handle : Nat} {k : Kind} {b : Address}
      (hv : h.embedded? handle = some (.ref k b)) : Edge h scopes (.handle handle) (.object b)

/-- A chain of links leads to the node from one of the roots, or from a handle that counts as in
use. -/
inductive Reaches (h : Heap) (scopes : Scopes) (roots : List Node) : Node → Prop where
  | root {n : Node} (hn : n ∈ roots) : Reaches h scopes roots n
  | active {floor handle : Nat} (hf : h.floor = some floor) (hle : floor ≤ handle)
      (hr : (h.embedded? handle).isSome) : Reaches h scopes roots (.handle handle)
  | step {n m : Node} (hn : Reaches h scopes roots n) (hm : h.Edge scopes n m) :
      Reaches h scopes roots m

variable {h : Heap} {scopes : Scopes}

/-- The references of an object are the objects it holds, and for a closure also its scope and the
handles in its body. -/
theorem mem_objectReferences_iff {a : Address} {o : Object} {m : Node} (ho : h.get? a = some o) :
    m ∈ o.references ↔ h.Edge scopes (.object a) m := by
  constructor
  · intro hm
    cases o with
    | str _ => simp [Object.references] at hm
    | list items l =>
      obtain ⟨k, b, hb, rfl⟩ := Node.mem_ofValues_iff.1 hm
      exact .part ho (.listItem hb)
    | vector items l =>
      obtain ⟨k, b, hb, rfl⟩ := Node.mem_ofValues_iff.1 hm
      exact .part ho (.vectorItem hb)
    | map entries =>
      obtain ⟨⟨x, y⟩, he, hm⟩ := List.mem_flatMap.1 hm
      rcases List.mem_append.1 hm with hm | hm
      · obtain ⟨k, b, rfl, rfl⟩ := Node.mem_ofValue_iff.1 hm
        exact .part ho (.mapKey he)
      · obtain ⟨k, b, rfl, rfl⟩ := Node.mem_ofValue_iff.1 hm
        exact .part ho (.mapValue he)
    | set members =>
      obtain ⟨k, b, hb, rfl⟩ := Node.mem_ofValues_iff.1 hm
      exact .part ho (.member hb)
    | function f =>
      obtain ⟨name, isMacro, body⟩ := f
      cases body with
      | native _ => simp [Object.references, Function.references] at hm
      | interpreted c =>
        rcases List.mem_cons.1 hm with rfl | hm
        · exact .closureScope ho
        · obtain ⟨o, hc, hm⟩ := List.mem_flatMap.1 hm
          obtain ⟨handle, hh, rfl⟩ := List.mem_map.1 hm
          exact .mention ho hc hh
      | compiled p captured =>
        rcases List.mem_append.1 hm with hm | hm
        · obtain ⟨k, b, hb, rfl⟩ := Node.mem_ofValues_iff.1 hm
          exact .part ho (.constant ((Prototype.mem_values_iff _ p).1 hb))
        · obtain ⟨k, b, hb, rfl⟩ := Node.mem_ofValues_iff.1 hm
          exact .part ho (.captured (Array.mem_toList_iff.1 hb))
    | atom v =>
      obtain ⟨k, b, rfl, rfl⟩ := Node.mem_ofValue_iff.1 hm
      exact .part ho .content
    | host _ => simp [Object.references] at hm
  · intro hm
    cases hm with
    | part ho' hv =>
      obtain rfl := Option.some.inj (ho.symm.trans ho')
      cases hv with
      | listItem hb => exact Node.mem_ofValues_iff.2 ⟨_, _, hb, rfl⟩
      | vectorItem hb => exact Node.mem_ofValues_iff.2 ⟨_, _, hb, rfl⟩
      | mapKey he =>
        exact List.mem_flatMap.2 ⟨_, he, List.mem_append_left _ (List.mem_singleton.2 rfl)⟩
      | mapValue he =>
        exact List.mem_flatMap.2 ⟨_, he, List.mem_append_right _ (List.mem_singleton.2 rfl)⟩
      | member hb => exact Node.mem_ofValues_iff.2 ⟨_, _, hb, rfl⟩
      | content => exact List.mem_singleton.2 rfl
      | captured hb =>
        exact List.mem_append_right _
          (Node.mem_ofValues_iff.2 ⟨_, _, Array.mem_toList_iff.2 hb, rfl⟩)
      | constant hb =>
        exact List.mem_append_left _
          (Node.mem_ofValues_iff.2 ⟨_, _, (Prototype.mem_values_iff _ _).2 hb, rfl⟩)
    | closureScope ho' =>
      obtain rfl := Option.some.inj (ho.symm.trans ho')
      exact List.mem_cons_self
    | mention ho' hc hh =>
      obtain rfl := Option.some.inj (ho.symm.trans ho')
      exact List.mem_cons_of_mem _ (List.mem_flatMap.2 ⟨_, hc, List.mem_map.2 ⟨_, hh, rfl⟩⟩)

/-- The references of a scope are what it binds and the scope around it. -/
theorem mem_scopeReferences_iff {i : ScopeId} {s : Scope} {m : Node}
    (hs : scopes.all[i]? = some s) : m ∈ s.references ↔ h.Edge scopes (.scope i) m := by
  constructor
  · intro hm
    rcases List.mem_append.1 hm with hm | hm
    · obtain ⟨k, b, hb, rfl⟩ := Node.mem_ofValues_iff.1 hm
      obtain ⟨name, hn⟩ := mem_values_iff.1 hb
      exact .binding hs hn
    · obtain ⟨j, hj, rfl⟩ := List.mem_map.1 hm
      exact .parent hs (Option.mem_toList.1 hj)
  · intro hm
    cases hm with
    | binding hs' hv =>
      obtain rfl := Option.some.inj (hs.symm.trans hs')
      exact List.mem_append_left _ (Node.mem_ofValues_iff.2 ⟨_, _, mem_values_iff.2 ⟨_, hv⟩, rfl⟩)
    | parent hs' hp =>
      obtain rfl := Option.some.inj (hs.symm.trans hs')
      exact List.mem_append_right _ (List.mem_map.2 ⟨_, Option.mem_toList.2 hp, rfl⟩)

/-- **The computed links are the links.** -/
theorem mem_references_iff (n m : Node) : m ∈ h.references scopes n ↔ h.Edge scopes n m := by
  cases n with
  | object a =>
    cases ho : h.get? a with
    | some o => simpa [references, ho] using mem_objectReferences_iff ho
    | none =>
      simp only [references, ho, Option.elim_none, List.not_mem_nil, false_iff]
      intro hm
      cases hm <;> simp_all
  | scope i =>
    cases hs : scopes.all[i]? with
    | some s => simpa [references, hs] using mem_scopeReferences_iff hs
    | none =>
      simp only [references, hs, Option.elim_none, List.not_mem_nil, false_iff]
      intro hm
      cases hm <;> simp_all
  | handle n =>
    simp only [references]
    constructor
    · intro hm
      cases hv : h.embedded[n]? with
      | none => simp [hv] at hm
      | some v =>
        rw [hv] at hm
        obtain ⟨k, b, rfl, rfl⟩ := Node.mem_ofValue_iff.1 hm
        exact .registered hv
    · intro hm
      cases hm with
      | registered hv =>
        rw [show h.embedded[n]? = _ from hv]
        exact List.mem_singleton.2 rfl

end Heap

end TwinLisp
