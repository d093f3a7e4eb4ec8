import TwinLisp.Proofs.Heap.Exactness

/-!
# What handles stand for

A handle stands for the value that was registered under it. No handle is issued twice, and so a handle never
comes to stand for another value. A collection may drop it, and then it stands for nothing: this happens as
soon as no closure that can be reached mentions it, unless new handles count as in use.

## Main definitions

* `Heap.Continues`: handles that were issued earlier stand for what they stood for, or for nothing.
* `Heap.IsMentioned`: a closure that can be reached mentions the handle.

## Main statements

* `Heap.embedded?_collect_iff_isMentioned`: which handles a collection drops.
-/

namespace TwinLisp.Heap

/-- The heap comes after `h`: the handles that were issued in `h` stand for what they stood for there, or for
nothing. -/
structure Continues (k h : Heap) : Prop where
  nextHandle : h.nextHandle ≤ k.nextHandle
  embedded {n : Nat} {v : Value} : n < h.nextHandle → k.embedded? n = some v → h.embedded? n = some v

namespace Continues

variable {h k l : Heap}

@[refl] theorem refl (h : Heap) : h.Continues h := ⟨le_rfl, fun _ => id⟩

theorem trans (hlk : l.Continues k) (hkh : k.Continues h) : l.Continues h where
  nextHandle := hkh.nextHandle.trans hlk.nextHandle
  embedded old hv := hkh.embedded old (hlk.embedded (old.trans_le hkh.nextHandle) hv)

/-- The table of handles is the same. -/
theorem of_eq (next : k.nextHandle = h.nextHandle) (table : k.embedded = h.embedded) : k.Continues h where
  nextHandle := next.ge
  embedded _ hv := by rwa [embedded?, table] at hv

theorem place (h : Heap) (o : Object) : (h.place o).1.Continues h :=
  of_eq (place_nextHandle h o) (place_embedded h o)

theorem set (h : Heap) (a : Address) (o : Object) : (h.set a o).Continues h := of_eq rfl rfl

theorem withFloor (h : Heap) (floor : Option Nat) : Heap.Continues { h with floor } h := of_eq rfl rfl

/-- A new handle is one that was not issued before. -/
theorem embed (h : Heap) (v : Value) : (h.embed v).1.Continues h where
  nextHandle := Nat.le_succ _
  embedded old hv := by rwa [embedded?_embed, if_neg (Nat.ne_of_gt old)] at hv

theorem collect (h : Heap) (scopes : Scopes) (roots : List Node) :
    (h.collect scopes roots).1.Continues h where
  nextHandle := le_rfl
  embedded _ hv := ((h.embedded?_collect scopes roots _ _).1 hv).1

end Continues

/-! ### Handles that are dropped -/

variable {h : Heap} {scopes : Scopes} {roots : List Node} {n : Nat}

/-- A closure that can be reached mentions the handle. -/
def IsMentioned (h : Heap) (scopes : Scopes) (roots : List Node) (n : Nat) : Prop :=
  ∃ a f c o, h.Reaches scopes roots (.object a) ∧ h.get? a = some (.function f) ∧
    f.body = .interpreted c ∧ o ∈ c.overloads ∧ n ∈ Form.handlesOf o.body

/-- Where new handles do not count as in use, a handle is reached through closures only. -/
theorem reaches_handle_iff (closed : h.floor = none) (unheld : .handle n ∉ roots) :
    h.Reaches scopes roots (.handle n) ↔ h.IsMentioned scopes roots n := by
  constructor
  · intro reached
    cases reached with
    | root held => exact absurd held unheld
    | active floor => simp [closed] at floor
    | step reached edge =>
      cases edge with
      | mention ho hc hm => exact ⟨_, _, _, _, reached, ho, rfl, hc, hm⟩
  · rintro ⟨a, ⟨name, isMacro, _⟩, c, o, reached, ho, rfl, hc, hm⟩
    exact reached.step (.mention ho hc hm)

/-- **A collection drops a handle as soon as no closure that can be reached mentions it.** -/
theorem embedded?_collect_iff_isMentioned (closed : h.floor = none) (unheld : .handle n ∉ roots) (v : Value) :
    (h.collect scopes roots).1.embedded? n = some v ↔
      h.embedded? n = some v ∧ h.IsMentioned scopes roots n := by
  rw [embedded?_collect, reaches_handle_iff closed unheld]

end TwinLisp.Heap
