import TwinLisp.Library.Native
import TwinLisp.Proofs.Correspondence.Primitives
import TwinLisp.Proofs.Special.Shape
import TwinLisp.Proofs.Transparency.Collection

/-!
# Names and scopes on both sides

Names and scopes have the same numbers in a session that collects and in one that does not.

## Main definitions

* `Covered`: a handle that stays registered as long as certain nodes are kept.

## Main statements

* `Sim.openScope`, `Sim.define`: scopes are opened and filled alike.
* `Covered.preserved`: what is kept covers its handles for good.
-/

namespace TwinLisp

variable {e : Terms} {q : Bool} {w w' : World} {s s' t t' : Session}

namespace Session.Match

/-- Both sides know the same names. -/
theorem symbols_eq (hm : s.Match (.transparent e) w t) : s.symbols = t.symbols := hm.scopes.1

theorem scopes_match (hm : s.Match (.transparent e) w t) : s.scopes.Match w t.scopes := hm.scopes.2

theorem root (hm : s.Match (.transparent e) w t) : w.scope Scopes.root := hm.scopes_match.root

/-- Names that correspond are the same. -/
theorem eq_of_sym (hm : s.Match (.transparent e) w t) {x y : Symbol} (h : w.sym x y) : x = y := by
  obtain ⟨n, hx, hy⟩ := (hm.symbols x y).1 h
  rw [hm.symbols_eq] at hx
  exact congrArg Symbol.mk (SymbolTable.eq_of_names hx hy)

/-- A scope that is opened on both sides may be looked into. -/
theorem openScope (hm : s.Match (.transparent e) w t) {i : ScopeId} (hi : w.scope i) :
    Session.Match (.transparent e) (w.withScope s.scopes.size)
      { s with scopes := s.scopes.openIn i } { t with scopes := t.scopes.openIn i } :=
  { hm with
    eq := fun hs => by rw [hm.eq hs]
    pins := hm.pins_mono World.le_withScope
    operands := hm.operands_mono World.le_withScope
    unique := ⟨hm.unique.sym_right, hm.unique.sym_left, hm.unique.pair_right, hm.unique.pair_left⟩
    symbols := hm.symbols
    scopes := ⟨hm.scopes.1, hm.scopes.2.openIn hi⟩
    heap := hm.heap.mono World.le_withScope rfl rfl rfl }

end Session.Match

/-! ### Parts of forms -/

theorem Fault.Match.malformed (form : String) (what : Malformation) (l : Location) :
    (malformed form what l).Match w (malformed form what l) :=
  (Fault.Match.of w (.malformed form what) rfl).located l

/-- Both sides go on with the parts of a form, or fail alike. -/
theorem Agree.parts {S : Setting} {K : Node → Prop} {α β γ : Type} {R : Related β γ} {Q : α → Prop}
    {x : Except Fault α} {f : α → Eval β} {g : α → Eval γ} (hx : Parts Q x) (hm : s.Match S w t)
    (h : ∀ a, Q a → Agree S K w s R (f a s) (g a t)) :
    Agree S K w s R ((Eval.ofExcept x >>= f) s) ((Eval.ofExcept x >>= g) t) := by
  cases hx with
  | ok ha => exact h _ ha
  | malformed => exact .fault (.refl _ _ _) hm (.malformed ..)

/-! ### Names and scopes -/

namespace Sim

theorem openScope {i : ScopeId} (hi : w.scope i) :
    Sim (.transparent e) q w (Eval.openScope i) (Eval.openScope i)
      fun w x y => x = y ∧ w.scope x := by
  intro s t hm _
  change Agree _ everything w s _ (.ok s.scopes.size { s with scopes := s.scopes.openIn i })
    (.ok t.scopes.size { t with scopes := t.scopes.openIn i })
  exact .ok (Preserves.of_le World.le_withScope (fun _ _ => id) rfl rfl rfl) (hm.openScope hi)
    ⟨hm.scopes_match.size, .inr rfl⟩

theorem define (i : ScopeId) (x : Symbol) {v v' : Value} (hv : v.Match w v') :
    Sim (.transparent e) q w (Eval.define i x v) (Eval.define i x v') Done := by
  intro s t hm _
  change Agree _ everything w s Done
    (.ok PUnit.unit { s with scopes := s.scopes.define i x v })
    (.ok PUnit.unit { t with scopes := t.scopes.define i x v' })
  refine .ok (Preserves.of_le le_rfl (fun _ _ => id) rfl rfl rfl) ?_ trivial
  exact { hm with
    eq := fun hs => by rw [hm.eq hs, hv.eq hs]
    scopes := ⟨hm.scopes.1, hm.scopes.2.define i x hv⟩ }

/-- Both sides enter a name under the same number. -/
theorem internSame (name : String) :
    Sim (.transparent e) q w (Eval.intern name) (Eval.intern name)
      fun w x y => x = y ∧ w.sym x x := by
  intro s t hm _
  have same : (s.symbols.intern name).2 = (t.symbols.intern name).2 := by rw [hm.symbols_eq]
  change Agree _ everything w s _
    (.ok (s.symbols.intern name).2 { s with symbols := (s.symbols.intern name).1 })
    (.ok (t.symbols.intern name).2 { t with symbols := (t.symbols.intern name).1 })
  exact .ok (Preserves.of_le World.le_withSymbol (fun _ _ => id) rfl rfl rfl) (hm.intern name)
    ⟨same, .inr ⟨rfl, same⟩⟩

theorem nameOfSame (x : Symbol) : Sim (.transparent e) q w (Eval.nameOf x) (Eval.nameOf x) Same :=
  get fun hm => by
    rw [hm.symbols_eq]
    exact pure rfl

theorem calleeName (x : Option Symbol) :
    Sim (.transparent e) q w (Eval.calleeName x) (Eval.calleeName x) Same :=
  match x with
  | some x => nameOfSame x
  | none => pure rfl

end Sim

/-! ### Handles that stay -/

/-- A handle stays registered as long as the nodes in `K` are kept: it is new enough to count as in use,
or a function that is kept mentions it. -/
def Covered (K : Node → Prop) (w : World) (s : Session) (n : Nat) : Prop :=
  w.handle n ∧ ((∃ k, s.heap.floor = some k ∧ k ≤ n) ∨
    ∃ a b f, K (.object a) ∧ w.live .function a b ∧ s.heap.get? a = some (.function f) ∧
      .handle n ∈ f.references)

/-- The handles that a function mentions may be used. -/
theorem Function.Match.handle {f g : Function} (h : f.Match (.transparent e) w g) {n : Nat}
    (hn : .handle n ∈ f.references) : w.handle n := by
  have hb : f.body.Match w g.body := h.body
  have noHandle (vs : List Value) : Node.handle n ∉ Node.ofValues vs := fun hm => by
    obtain ⟨k, a, -, h⟩ := Node.mem_ofValues_iff.1 hm
    cases h
  unfold Function.references at hn
  generalize f.body = b at hb hn
  generalize g.body = c at hb
  cases hb with
  | native _ => cases hn
  | interpreted h =>
    obtain ⟨o, ho, hn⟩ := List.mem_flatMap.1 ((List.mem_cons.1 hn).resolve_left nofun)
    obtain ⟨m, hm, hn⟩ := List.mem_map.1 hn
    cases hn
    obtain ⟨f, hf, hm⟩ := Form.mem_handlesOf.1 hm
    exact h.handles o ho f hf _ hm
  | compiled _ _ =>
    exact ((List.mem_append.1 hn).elim (noHandle _) (noHandle _)).elim

namespace Covered

variable {K K' : Node → Prop} {n : Nat}

theorem weaken (h : Covered K w s n) (hK : ∀ n, K n → K' n) : Covered K' w s n := by
  obtain ⟨hn, h | ⟨a, b, f, ha, h⟩⟩ := h
  · exact ⟨hn, .inl h⟩
  · exact ⟨hn, .inr ⟨a, b, f, hK _ ha, h⟩⟩

/-- What is kept covers its handles for good. -/
theorem preserved (h : Covered K w s n) (hf : Preserves K w s w' s') (hm : s'.Match (.transparent e) w' t') :
    Covered K w' s' n := by
  obtain ⟨hn, ⟨k, hk, hle⟩ | ⟨a, b, f, ha, hl, hg, hr⟩⟩ := h
  · exact ⟨hf.handles (.inr (.inr ⟨k, hk, hle⟩)) hn, .inl ⟨k, hf.floor.trans hk, hle⟩⟩
  · have hl' := hf.objects (.inl ha) hl
    have hg' := hf.fixed (.inl ha) hl nofun hg
    obtain ⟨o, o', ho, -, -, hoo, -⟩ := hm.heap.objects hl'
    rw [hg'] at ho
    cases ho
    cases hoo with
    | function hfg => exact ⟨hfg.handle hr, .inr ⟨a, b, f, ha, hl', hg', hr⟩⟩

end Covered

end TwinLisp
