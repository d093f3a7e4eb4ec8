import TwinLisp.Proofs.Correspondence.Code
import TwinLisp.Proofs.Heap.Exactness

/-!
# A session that collects and one that does not

To show that a collection changes nothing that a program can observe, a session that collects is
compared with one that never does. To show that it takes away nothing that is still used, the session is
compared with itself. Both sides enter the same names in the same order and open the same scopes, and so
names and scopes simply have the same numbers. Functions made on both sides are made of the same code.

## Main definitions

* `Prototype.Match`, `Closure.Match` and `FunctionBody.Match`: functions made of the same code.
* `Scopes.Match`: scopes with the same bindings.
* `Terms` and `Setting.transparent`: the setting in which the two sessions are compared.
-/

namespace TwinLisp

/-! ### Functions -/

mutual

/-- Two prototypes correspond: they have the same code and constants that correspond. -/
inductive Prototype.Match (w : World) : Prototype → Prototype → Prop where
  | mk {name : Option Symbol} {label : Option String} {captures : List Capture}
      {as bs : List (ArityCode Prototype)} (hn : ∀ x, name = some x → w.sym x x)
      (h : Prototype.ArityMatch w as bs) :
      Prototype.Match w (.mk name label captures as) (.mk name label captures bs)

/-- The code of two lists of parameter lists corresponds. -/
inductive Prototype.ArityMatch (w : World) :
    List (ArityCode Prototype) → List (ArityCode Prototype) → Prop where
  | nil : Prototype.ArityMatch w [] []
  | cons {params : Nat} {hasRest : Bool} {code : Array Instruction} {locations : Array Location}
      {constants constants' : Array Value} {sites : Array (List Location)}
      {ps qs : List Prototype} {as bs : List (ArityCode Prototype)}
      (hc : Value.MatchAll w constants.toList constants'.toList) (hp : Prototype.AllMatch w ps qs)
      (hs : Prototype.ArityMatch w as bs) :
      Prototype.ArityMatch w (⟨params, hasRest, code, locations, constants, sites, ps⟩ :: as)
        (⟨params, hasRest, code, locations, constants', sites, qs⟩ :: bs)

/-- Two lists of prototypes correspond. -/
inductive Prototype.AllMatch (w : World) : List Prototype → List Prototype → Prop where
  | nil : Prototype.AllMatch w [] []
  | cons {p q : Prototype} {ps qs : List Prototype} (h : Prototype.Match w p q)
      (hs : Prototype.AllMatch w ps qs) : Prototype.AllMatch w (p :: ps) (q :: qs)

end

namespace Prototype

variable {w w' : World}

mutual

/-- Prototypes whose names and constants correspond elsewhere do so as well. -/
theorem Match.imp (hs : ∀ x, w.sym x x → w'.sym x x) : {p q : Prototype} →
    (∀ v ∈ p.values, ∀ v', v.Match w v' → v.Match w' v') → Match w p q → Match w' p q
  | .mk _ _ _ _, .mk _ _ _ _, hv, .mk hn h =>
    .mk (fun x hx => hs x (hn x hx)) (ArityMatch.imp hs (by simpa [values] using hv) h)

theorem ArityMatch.imp (hs : ∀ x, w.sym x x → w'.sym x x) : {as bs : List (ArityCode Prototype)} →
    (∀ v ∈ arityValues as, ∀ v', v.Match w v' → v.Match w' v') → ArityMatch w as bs →
      ArityMatch w' as bs
  | [], [], _, .nil => .nil
  | _ :: _, _ :: _, hv, .cons hc hp h => by
    simp only [arityValues, List.mem_append] at hv
    exact .cons (forall₂_imp_of_mem hc fun v hm v' _ => hv v (.inl (.inl hm)) v')
      (AllMatch.imp hs (fun v hm => hv v (.inl (.inr hm))) hp)
      (ArityMatch.imp hs (fun v hm => hv v (.inr hm)) h)

theorem AllMatch.imp (hs : ∀ x, w.sym x x → w'.sym x x) : {ps qs : List Prototype} →
    (∀ v ∈ valuesOf ps, ∀ v', v.Match w v' → v.Match w' v') → AllMatch w ps qs → AllMatch w' ps qs
  | [], [], _, .nil => .nil
  | _ :: _, _ :: _, hv, .cons hp h => by
    simp only [valuesOf, List.mem_append] at hv
    exact .cons (Match.imp hs (fun v hm => hv v (.inl hm)) hp)
      (AllMatch.imp hs (fun v hm => hv v (.inr hm)) h)

end

mutual

/-- In a session that is compared with itself, prototypes correspond to themselves. -/
theorem Match.eq (hs : w.isSelf) : {p q : Prototype} → Match w p q → p = q
  | .mk _ _ _ _, .mk _ _ _ _, .mk _ h => by rw [ArityMatch.eq hs h]

theorem ArityMatch.eq (hs : w.isSelf) : {as bs : List (ArityCode Prototype)} → ArityMatch w as bs →
    as = bs
  | [], [], .nil => rfl
  | _ :: _, _ :: _, .cons hc hp h => by
    rw [Array.toList_inj.1 (Value.Match.all_eq hc hs), AllMatch.eq hs hp, ArityMatch.eq hs h]

theorem AllMatch.eq (hs : w.isSelf) : {ps qs : List Prototype} → AllMatch w ps qs → ps = qs
  | [], [], .nil => rfl
  | _ :: _, _ :: _, .cons hp h => by rw [Match.eq hs hp, AllMatch.eq hs h]

end

theorem ArityMatch.mono {as bs : List (ArityCode Prototype)} (h : ArityMatch w as bs) (hw : w ≤ w') :
    ArityMatch w' as bs :=
  h.imp (fun _ => hw.sym) fun _ _ _ h => h.mono hw

theorem Match.mono {p q : Prototype} (h : p.Match w q) (hw : w ≤ w') : p.Match w' q :=
  h.imp (fun _ => hw.sym) fun _ _ _ h => h.mono hw

end Prototype

/-- Two closures correspond: they are the same, and what they refer to may be used. -/
structure Closure.Match (w : World) (c d : Closure) : Prop where
  eq : c = d
  scope : w.scope c.scope
  handles : ∀ o ∈ c.overloads, Form.MentionsAll w.handle o.body

theorem Closure.Match.mono {w w' : World} {c d : Closure} (h : c.Match w d) (hw : w ≤ w') :
    c.Match w' d :=
  ⟨h.eq, hw.scope h.scope, fun o ho f hf => (h.handles o ho f hf).mono hw⟩

/-- Two functions are run alike. -/
inductive FunctionBody.Match (w : World) : FunctionBody → FunctionBody → Prop where
  | native (n : Native) : FunctionBody.Match w (.native n) (.native n)
  | interpreted {c d : Closure} (h : c.Match w d) :
    FunctionBody.Match w (.interpreted c) (.interpreted d)
  | compiled {p q : Prototype} {captured captured' : Array Value} (hp : p.Match w q)
    (hc : Value.MatchAll w captured.toList captured'.toList) :
    FunctionBody.Match w (.compiled p captured) (.compiled q captured')

theorem FunctionBody.Match.mono {w w' : World} {b c : FunctionBody} (h : b.Match w c) (hw : w ≤ w') :
    b.Match w' c := by
  cases h with
  | native n => exact .native n
  | interpreted h => exact .interpreted (h.mono hw)
  | compiled hp hc => exact .compiled (hp.mono hw) (Value.Match.all_mono hc hw)

theorem FunctionBody.Match.eq {w : World} {b c : FunctionBody} (h : b.Match w c) (hs : w.isSelf) :
    b = c := by
  cases h with
  | native n => rfl
  | interpreted h => rw [h.eq]
  | compiled hp hc => rw [hp.eq hs, Array.toList_inj.1 (Value.Match.all_eq hc hs)]

/-! ### Scopes -/

/-- Two scopes have the same names bound to values that correspond, and stand inside the same scope. -/
structure Scope.Match (w : World) (s t : Scope) : Prop where
  bindings : ∀ i : Nat, Option.Rel (Value.Match w) s.bindings[i]? t.bindings[i]?
  parent_eq : s.parent = t.parent
  parent : ∀ p, s.parent = some p → w.scope p

/-- The scopes of two sessions correspond. -/
structure Scopes.Match (w : World) (r u : Scopes) : Prop where
  size : r.size = u.size
  root : w.scope Scopes.root
  all : ∀ {i}, w.scope i → ∃ s t, r.all[i]? = some s ∧ u.all[i]? = some t ∧ s.Match w t

theorem Scope.Match.mono {w w' : World} {s t : Scope} (h : s.Match w t) (hw : w ≤ w') : s.Match w' t :=
  ⟨fun i => Option.Rel.imp (h.bindings i) fun _ _ hv => hv.mono hw, h.parent_eq,
    fun p hp => hw.scope (h.parent p hp)⟩

namespace Scopes.Match

variable {w w' : World} {r u : Scopes}

theorem mono (h : r.Match w u) (hw : w ≤ w') (hs : w'.scope = w.scope) : r.Match w' u where
  size := h.size
  root := hw.scope h.root
  all hi := by
    obtain ⟨s, t, hs, ht, hst⟩ := h.all (hs ▸ hi)
    exact ⟨s, t, hs, ht, hst.mono hw⟩

/-- A name that is looked up leads to values that correspond. -/
theorem lookupWithin (h : r.Match w u) (x : Symbol) (n : Nat) {i : ScopeId} (hi : w.scope i) :
    Option.Rel (Value.Match w) (r.lookupWithin x n i) (u.lookupWithin x n i) := by
  induction n generalizing i with
  | zero => exact .none
  | succ n ih =>
    obtain ⟨s, t, hs, ht, hst⟩ := h.all hi
    simp only [Scopes.lookupWithin, hs, ht]
    have here := hst.bindings x.index
    have parent := hst.parent_eq
    generalize s.bindings[x.index]? = a at here ⊢
    generalize t.bindings[x.index]? = b at here ⊢
    cases here with
    | some hv => exact .some hv
    | none =>
      rw [← parent]
      cases hp : s.parent with
      | none => exact .none
      | some p => exact ih (hst.parent p hp)

theorem lookup? (h : r.Match w u) (x : Symbol) {i : ScopeId} (hi : w.scope i) :
    Option.Rel (Value.Match w) (r.lookup? i x) (u.lookup? i x) := by
  rw [Scopes.lookup?, Scopes.lookup?, h.size]
  exact h.lookupWithin x _ hi

/-- The same name gets values that correspond. -/
theorem define (h : r.Match w u) (i : ScopeId) (x : Symbol) {v v' : Value} (hv : v.Match w v') :
    (r.define i x v).Match w (u.define i x v') where
  size := by simpa using h.size
  root := h.root
  all {j} hj := by
    obtain ⟨s, t, hs, ht, hst⟩ := h.all hj
    simp only [Scopes.define, Array.getElem?_modify, hs, ht]
    by_cases hij : i = j
    · rw [if_pos hij, if_pos hij]
      refine ⟨_, _, rfl, rfl, fun n => ?_, hst.parent_eq, hst.parent⟩
      rw [Std.TreeMap.getElem?_insert, Std.TreeMap.getElem?_insert]
      split
      · exact .some hv
      · exact hst.bindings n
    · rw [if_neg hij, if_neg hij]
      exact ⟨s, t, rfl, rfl, hst⟩

end Scopes.Match

/-- The world with one more scope. -/
def World.withScope (w : World) (i : ScopeId) : World := { w with scope := fun j => w.scope j ∨ j = i }

theorem World.le_withScope {w : World} {i : ScopeId} : w ≤ w.withScope i :=
  ⟨.rfl, id, id, id, .inl, id⟩

/-- A scope that is opened on both sides may be looked into. -/
theorem Scopes.Match.openIn {w : World} {r u : Scopes} (h : r.Match w u) {p : ScopeId} (hp : w.scope p) :
    (r.openIn p).Match (w.withScope r.size) (u.openIn p) where
  size := by simpa using h.size
  root := .inl h.root
  all {i} hi := by
    simp only [Scopes.openIn, Array.getElem?_push]
    rcases hi with hi | rfl
    · obtain ⟨s, t, hs, ht, hst⟩ := h.all hi
      have hr : i ≠ r.all.size := fun e => by simp [e] at hs
      have hu : i ≠ u.all.size := fun e => by simp [e] at ht
      rw [if_neg hr, if_neg hu]
      exact ⟨s, t, hs, ht, hst.mono World.le_withScope⟩
    · rw [if_pos (show r.size = r.all.size from rfl), if_pos (show r.size = u.all.size from h.size)]
      exact ⟨_, _, rfl, rfl, fun i => by simp, rfl,
        fun q hq => by cases hq; exact .inl hp⟩

/-! ### The setting -/

/-- The terms of a comparison. -/
structure Terms where
  /-- Whether a session is compared with itself. -/
  isSelf : Prop
  /-- Whether the second session may end on its own. -/
  mayEnd : Prop
  /-- The oldest handle that expansion may put into code. -/
  oldest : Nat
  /-- A heap whose handles still stand for what they stood for. -/
  since : Heap

namespace Setting

/-- What it is for a session that collects to do the same as one that never does, or as it does itself. -/
def transparent (e : Terms) : Setting where
  body := FunctionBody.Match
  body_mono hw h := h.mono hw
  native_left := ⟨fun h => by cases h; rfl, fun h => by rw [h]; exact .native _⟩
  native_right := ⟨fun h => by cases h; rfl, fun h => by rw [h]; exact .native _⟩
  body_eq hs h := h.eq hs
  scopes w σ r τ u := σ = τ ∧ r.Match w u
  scopes_mono hw hs h := ⟨h.1, h.2.mono hw hs⟩
  scopes_intern name h := ⟨by rw [h.1], h.2⟩
  scopes_define {w σ r τ u x y v v'} hσ h hx hv := by
    obtain ⟨rfl, h⟩ := h
    obtain ⟨n, hx, hy⟩ := (hσ x y).1 hx
    have : x = y := congrArg Symbol.mk (SymbolTable.eq_of_names hx hy)
    exact ⟨rfl, this ▸ h.define _ _ hv⟩
  globals {w σ r τ u} h name := by
    obtain ⟨rfl, h⟩ := h
    cases σ.find? name with
    | none => exact .none
    | some x => exact h.lookup? x h.root
  isSelf := e.isSelf
  exact := True
  mayEndRight := e.mayEnd
  oldest := e.oldest
  since := e.since

end Setting

end TwinLisp
