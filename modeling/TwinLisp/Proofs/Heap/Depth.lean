import Mathlib.Data.Finset.Card
import TwinLisp.Heap.Equality
import TwinLisp.Proofs.Heap.Marking

/-!
# How deep data is nested

Data on the heap refers to older data only, so every chain of references through data ends. No chain
visits a slot twice, so none is longer than there are slots, and what looks through that many
references in a row sees all there is.

## Main definitions

* `Object.contents`: the values that lie in data.
* `Heap.Founded`: data refers to older data.
* `Heap.Within`: a value leads through no more than so many references in a row.

## Main statements

* `Heap.Founded.within`: every value leads through no more references than there are slots.
* `Heap.Founded.place`, `Heap.Founded.set`: new objects and new contents of atoms keep it so.
-/

namespace TwinLisp

namespace Object

/-- Whether the object is told apart by its address. -/
def isIdentity : Object → Bool
  | .function _ => true
  | .atom _ => true
  | .host _ => true
  | _ => false

/-- The values that lie in data. -/
def contents : Object → List Value
  | .list items _ => items
  | .vector items _ => items
  | .map m => m.toList.flatMap fun e => [e.1, e.2]
  | .set s => s.toList
  | _ => []

end Object

namespace Heap

/-- Data refers to data that is older. Here `live` picks out the addresses that matter. -/
def Founded (h : Heap) (live : Address → Prop) : Prop :=
  ∃ (born : Address → Nat) (now : Nat), (∀ a, live a → born a < now) ∧
    ∀ {a o}, live a → h.get? a = some o → ∀ {k c}, .ref k c ∈ o.contents → born c < born a

/-- The value leads through at most `n` references to data in a row. -/
def Within (h : Heap) : Nat → Value → Prop
  | 0, v => ∃ k, v.plainKey = .inl k
  | n + 1, v => ∀ {k a o}, v = .ref k a → h.get? a = some o → ∀ c ∈ o.contents, Within h n c

variable {h : Heap} {live live' : Address → Prop}

theorem Founded.imp (hf : h.Founded live) (hl : ∀ a, live' a → live a) : h.Founded live' :=
  have ⟨born, now, hnow, hborn⟩ := hf
  ⟨born, now, fun a ha => hnow a (hl a ha), fun ha => hborn (hl _ ha)⟩

/-- The slots of live objects that are older than `n`. -/
noncomputable def olderSlots (h : Heap) (live : Address → Prop) (born : Address → Nat) (n : Nat) :
    Finset Nat :=
  open Classical in
  (Finset.range h.slots.size).filter fun i => ∃ a, live a ∧ a.index = i ∧ born a < n

theorem card_olderSlots_le (h : Heap) (live : Address → Prop) (born : Address → Nat) (n : Nat) :
    (h.olderSlots live born n).card ≤ h.slots.size := by
  classical
  calc (h.olderSlots live born n).card
      ≤ (Finset.range h.slots.size).card := Finset.card_filter_le _ _
    _ = h.slots.size := Finset.card_range _

/-- Live objects are there, and what data refers to is live, too. -/
structure Closed (h : Heap) (live : Address → Prop) : Prop where
  isLive : ∀ {a}, live a → h.isLive a = true
  contents : ∀ {a o}, live a → h.get? a = some o → ∀ {k c}, .ref k c ∈ o.contents → live c

theorem card_olderSlots_lt {born : Address → Nat} {a : Address} {n : Nat} (hc : h.Closed live)
    (ha : live a) (hn : n ≤ born a) :
    (h.olderSlots live born n).card < (h.olderSlots live born (born a + 1)).card := by
  classical
  refine Finset.card_lt_card (Finset.ssubset_iff_of_subset ?_ |>.2 ⟨a.index, ?_, ?_⟩)
  · intro i hi
    obtain ⟨hr, b, hb, hbi, hlt⟩ := Finset.mem_filter.1 hi
    exact Finset.mem_filter.2 ⟨hr, b, hb, hbi, by omega⟩
  · obtain ⟨o, ho⟩ := isLive_iff.1 (hc.isLive ha)
    exact Finset.mem_filter.2 ⟨Finset.mem_range.2 (Array.getElem?_eq_some_iff.1 ho).1, a, ha, rfl,
      by omega⟩
  · intro hi
    obtain ⟨-, b, hb, hbi, hlt⟩ := Finset.mem_filter.1 hi
    rw [eq_of_isLive (hc.isLive hb) (hc.isLive ha) hbi] at hlt
    omega

theorem within_of_card {born : Address → Nat} (hc : h.Closed live)
    (hborn : ∀ {a o}, live a → h.get? a = some o → ∀ {k c}, .ref k c ∈ o.contents → born c < born a)
    (n : Nat) (v : Value)
    (hv : ∀ {k a}, v = .ref k a → live a ∧ (h.olderSlots live born (born a + 1)).card ≤ n) :
    h.Within (n + 1) v := by
  induction n generalizing v with
  | zero =>
    rw [Within]
    intro k a o e ho c hm
    obtain ⟨ha, hcard⟩ := hv e
    have := card_olderSlots_lt hc ha (Nat.zero_le (born a))
    omega
  | succ n ih =>
    rw [Within]
    intro k a o e ho c hm
    obtain ⟨ha, hcard⟩ := hv e
    refine ih c fun {k' b} e' => ?_
    subst e'
    refine ⟨hc.contents ha ho hm, ?_⟩
    have := card_olderSlots_lt hc ha (Nat.succ_le_of_lt (hborn ha ho hm))
    rw [Nat.succ_eq_add_one] at this
    omega

/-- **Every value leads through no more references than there are slots.** -/
theorem Founded.within (hf : h.Founded live) (hc : h.Closed live) (v : Value)
    (hv : ∀ {k a}, v = .ref k a → live a) : h.Within (h.slots.size + 1) v :=
  have ⟨born, _, _, hborn⟩ := hf
  within_of_card hc hborn h.slots.size v fun e => ⟨hv e, card_olderSlots_le h live born _⟩

/-- A new object is younger than everything it refers to. -/
theorem Founded.place (hf : h.Founded live) (hs : h.Sound) (hc : h.Closed live) (o : Object)
    (ho : ∀ {k c}, .ref k c ∈ o.contents → live c) :
    (h.place o).1.Founded fun a => live a ∨ a = (h.place o).2 := by
  classical
  obtain ⟨born, now, hnow, hborn⟩ := hf
  have old {a : Address} (ha : live a) : a ≠ (h.place o).2 := fun e =>
    have ⟨p, hp⟩ := Option.isSome_iff_exists.1 (hc.isLive ha)
    h.not_known_place o hs (e ▸ known_of_get? hp)
  refine ⟨fun a => if a = (h.place o).2 then now else born a, now + 1, fun a ha => ?_, ?_⟩
  · dsimp only
    split
    · omega
    · next hne =>
      have := hnow a (ha.resolve_right hne)
      omega
  · intro a p ha hp k c hm
    dsimp only
    rw [get?_place h o hs] at hp
    rcases ha with ha | rfl
    · rw [if_neg (old ha)] at hp ⊢
      rw [if_neg (old (hc.contents ha hp hm))]
      exact hborn ha hp hm
    · rw [if_pos rfl] at hp ⊢
      cases hp
      rw [if_neg (old (ho hm))]
      exact hnow c (ho hm)

/-- Nothing counts as lying in an atom. -/
theorem Founded.set (hf : h.Founded live) (a : Address) {o : Object} (ho : o.contents = []) :
    (h.set a o).Founded live := by
  obtain ⟨born, now, hnow, hborn⟩ := hf
  refine ⟨born, now, hnow, fun {b p} hb hp {k c} hm => ?_⟩
  rw [get?_set] at hp
  split at hp
  · obtain ⟨q, -, rfl⟩ := Option.map_eq_some_iff.1 hp
    rw [ho] at hm
    cases hm
  · exact hborn hb hp hm

end Heap

end TwinLisp
