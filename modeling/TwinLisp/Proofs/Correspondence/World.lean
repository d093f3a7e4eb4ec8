import Mathlib.Order.Basic
import TwinLisp.Proofs.Collection.Pairwise
import TwinLisp.Session.Scope

/-!
# What corresponds in two sessions

Two sessions that run the same program need not look the same inside: objects lie at other
addresses, and names may stand at other positions. A *world* says what corresponds to what. It lists
the names, the objects that are there on both sides, the scopes and the handles that may be used.

Besides the objects that are there a world remembers every pair of objects that was ever matched.
Addresses are never used again, so this relation stays one to one for good, and collections may go
on holding the address of an object under one of their keys.

A world *grows* as a run goes on. What matches in a world matches in every larger one.

A session may also be compared with itself. Then everything corresponds to itself alone, and what the
world lists is what may be used: references that lead somewhere, and handles that stand for something.

## Main definitions

* `World` and its order, `World.Unique` and `World.flip`.
* `Value.Match`: what it is for two values to correspond.
-/

namespace TwinLisp

/-- What corresponds in two sessions. -/
structure World where
  /-- Whether a session is compared with itself. -/
  isSelf : Prop
  /-- Names. -/
  sym : Symbol → Symbol → Prop
  /-- Objects that were matched at some time. -/
  pair : Address → Address → Prop
  /-- Objects of a kind that are there. -/
  live : Kind → Address → Address → Prop
  /-- Scopes that may be looked into. -/
  scope : ScopeId → Prop
  /-- Handles that may be used. -/
  handle : Nat → Prop
  sym_eq : isSelf → ∀ {x y}, sym x y → x = y
  pair_eq : isSelf → ∀ {a b}, pair a b → a = b
  live_eq : isSelf → ∀ {k a b}, live k a b → a = b

namespace World

/-- What corresponds in one world corresponds in another one. -/
structure Grows (w w' : World) : Prop where
  isSelf : w'.isSelf ↔ w.isSelf
  sym : ∀ {x y}, w.sym x y → w'.sym x y
  pair : ∀ {a b}, w.pair a b → w'.pair a b
  live : ∀ {k a b}, w.live k a b → w'.live k a b
  scope : ∀ {i}, w.scope i → w'.scope i
  handle : ∀ {h}, w.handle h → w'.handle h

instance : Preorder World where
  le := Grows
  le_refl _ := ⟨.rfl, id, id, id, id, id⟩
  le_trans _ _ _ h k :=
    ⟨k.isSelf.trans h.isSelf, k.sym ∘ h.sym, k.pair ∘ h.pair, k.live ∘ h.live, k.scope ∘ h.scope, k.handle ∘ h.handle⟩

/-- Names and objects correspond one to one. -/
structure Unique (w : World) : Prop where
  sym_right : ∀ {x y z}, w.sym x y → w.sym x z → y = z
  sym_left : ∀ {x y z}, w.sym x z → w.sym y z → x = y
  pair_right : ∀ {a b c}, w.pair a b → w.pair a c → b = c
  pair_left : ∀ {a b c}, w.pair a c → w.pair b c → a = b

/-- The world seen from the other side. -/
def flip (w : World) : World where
  isSelf := w.isSelf
  sym x y := w.sym y x
  pair a b := w.pair b a
  live k a b := w.live k b a
  scope := w.scope
  handle := w.handle
  sym_eq h := fun hx => (w.sym_eq h hx).symm
  pair_eq h := fun ha => (w.pair_eq h ha).symm
  live_eq h := fun ha => (w.live_eq h ha).symm

theorem Unique.flip {w : World} (h : w.Unique) : w.flip.Unique :=
  ⟨h.sym_left, h.sym_right, h.pair_left, h.pair_right⟩

/-- The objects of the first session that are there. -/
def Left (w : World) (a : Address) : Prop := ∃ k b, w.live k a b

/-- The objects of the second session that are there. -/
def Right (w : World) (b : Address) : Prop := ∃ k a, w.live k a b

end World

/-! ### Values -/

/-- Two values correspond: they are the same immediate, the same name, or references to objects that
correspond. -/
inductive Value.Match (w : World) : Value → Value → Prop where
  | nil : Match w .nil .nil
  | bool (b : Bool) : Match w (.bool b) (.bool b)
  | int (n : Int64) : Match w (.int n) (.int n)
  | float (x : Double) : Match w (.float x) (.float x)
  | char (c : Char) : Match w (.char c) (.char c)
  | symbol {x y : Symbol} : w.sym x y → Match w (.symbol x) (.symbol y)
  | keyword {x y : Symbol} : w.sym x y → Match w (.keyword x) (.keyword y)
  | ref (k : Kind) {a b : Address} : w.live k a b → Match w (.ref k a) (.ref k b)

/-- Two lists of values correspond. -/
abbrev Value.MatchAll (w : World) : List Value → List Value → Prop := List.Forall₂ (Value.Match w)

namespace Value.Match

variable {w w' : World} {v v' : Value}

theorem mono (h : v.Match w v') (hw : w ≤ w') : v.Match w' v' := by
  cases h with
  | symbol h => exact .symbol (hw.sym h)
  | keyword h => exact .keyword (hw.sym h)
  | ref k h => exact .ref k (hw.live h)
  | _ => constructor

theorem all_mono {vs vs' : List Value} (h : Value.MatchAll w vs vs') (hw : w ≤ w') :
    Value.MatchAll w' vs vs' :=
  h.imp fun _ _ h => h.mono hw

theorem isTruthy_eq (h : v.Match w v') : v.isTruthy = v'.isTruthy := by cases h <;> rfl

theorem isNumber_eq (h : v.Match w v') : v.isNumber = v'.isNumber := by cases h <;> rfl

theorem typeName_eq (h : v.Match w v') : v.typeName = v'.typeName := by cases h <;> rfl

/-- In a session that is compared with itself, values correspond to themselves. -/
theorem eq (h : v.Match w v') (hs : w.isSelf) : v = v' := by
  cases h with
  | symbol h => rw [w.sym_eq hs h]
  | keyword h => rw [w.sym_eq hs h]
  | ref k h => rw [w.live_eq hs h]
  | _ => rfl

theorem all_eq {vs vs' : List Value} (h : Value.MatchAll w vs vs') (hs : w.isSelf) : vs = vs' :=
  eq_of_forall₂_self h fun _ _ _ hv => hv.eq hs

end Value.Match

end TwinLisp
