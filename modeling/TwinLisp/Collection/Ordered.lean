import Std.Data.TreeMap.Lemmas
import TwinLisp.Collection.Key

/-!
# Ordered collections

A collection of items that are found by key and kept in the order in which their keys first came in.
Every key that enters is given the next ticket; the items are kept by ticket and the tickets by key.
An item that leaves gives its ticket up for good, so a key that comes back goes to the end.

Maps and sets are such collections: a map's items are its entries, a set's its members. Every
operation yields a new collection and leaves the old one as it was.

## Main definitions

* `Ordered.Coherent` says how the parts of a collection fit together.
* `Ordered.get?` finds an item, and `Ordered.toList` lists all of them in order.
* `Ordered.insert` puts an item in the place of one with the same key; `Ordered.insertIfNew` keeps
  the one that is there.
* `OrderedMap` and `OrderedSet`.

## Main statements

* `Ordered.Coherent.push`, `Ordered.Coherent.replace`, `Ordered.Coherent.erase`: every way to change
  a collection keeps its parts fitting.
* `Ordered.get?_empty`, `Ordered.toList_empty`: the empty collection.
-/

namespace TwinLisp

/-- How the items, the tickets and the next ticket of a collection fit together: keys and items
correspond one to one, and every ticket in use has been given out. -/
structure Ordered.Coherent {α : Type} (items : Std.TreeMap Nat α) (tickets : Std.TreeMap Key Nat)
    (next : Nat) : Prop where
  /-- A key leads to an item. -/
  mem_items : ∀ {k : Key} {t : Nat}, tickets[k]? = some t → t ∈ items
  /-- Every item has a key. -/
  exists_key : ∀ {t : Nat}, t ∈ items → ∃ k : Key, tickets[k]? = some t
  /-- No two keys lead to one item. -/
  key_unique : ∀ {k l : Key} {t : Nat}, tickets[k]? = some t → tickets[l]? = some t → k = l
  /-- Tickets in use come before the next one. -/
  lt_next : ∀ {t : Nat}, t ∈ items → t < next

/-- Items that are found by key and kept in order of arrival. -/
structure Ordered (α : Type) where
  /-- The items by ticket. -/
  items : Std.TreeMap Nat α
  /-- The ticket of every key. -/
  tickets : Std.TreeMap Key Nat
  /-- The next ticket. -/
  next : Nat
  /-- The parts fit together. -/
  coherent : Ordered.Coherent items tickets next

namespace Ordered

variable {α : Type}

/-! ### Fitting parts -/

namespace Coherent

variable {items : Std.TreeMap Nat α} {tickets : Std.TreeMap Key Nat} {next : Nat}

theorem empty : Coherent (∅ : Std.TreeMap Nat α) ∅ 0 where
  mem_items h := by simp at h
  exists_key h := by simp at h
  key_unique h := by simp at h
  lt_next h := by simp at h

/-- A new key gets the next ticket. -/
theorem push (h : Coherent items tickets next) {k : Key} (a : α) (hk : tickets[k]? = none) :
    Coherent (items.insert next a) (tickets.insert k next) (next + 1) where
  mem_items {l t} hl := by
    rw [Std.TreeMap.getElem?_insert] at hl
    rw [Std.TreeMap.mem_insert]
    split at hl
    · exact .inl (by cases hl; simp)
    · exact .inr (h.mem_items hl)
  exists_key {t} ht := by
    rw [Std.TreeMap.mem_insert] at ht
    rcases ht with ht | ht
    · refine ⟨k, ?_⟩
      rw [Std.LawfulEqOrd.eq_of_compare ht]
      simp
    · obtain ⟨l, hl⟩ := h.exists_key ht
      refine ⟨l, ?_⟩
      have hkl : ¬ compare k l = .eq := fun e => by
        rw [Std.LawfulEqOrd.eq_of_compare e, hl] at hk
        cases hk
      rw [Std.TreeMap.getElem?_insert, if_neg hkl, hl]
  key_unique {l m t} hl hm := by
    have fresh : ∀ {n : Key}, tickets[n]? ≠ some next := fun hn =>
      Nat.lt_irrefl _ (h.lt_next (h.mem_items hn))
    rw [Std.TreeMap.getElem?_insert] at hl hm
    split at hl <;> split at hm
    · next el em =>
      rw [← Std.LawfulEqOrd.eq_of_compare el, ← Std.LawfulEqOrd.eq_of_compare em]
    · cases hl; exact absurd hm fresh
    · cases hm; exact absurd hl fresh
    · exact h.key_unique hl hm
  lt_next {t} ht := by
    rw [Std.TreeMap.mem_insert] at ht
    rcases ht with ht | ht
    · have := Std.LawfulEqOrd.eq_of_compare ht
      omega
    · have := h.lt_next ht
      omega

/-- An item takes the place of another. -/
theorem replace (h : Coherent items tickets next) {k : Key} {t : Nat} (a : α)
    (hk : tickets[k]? = some t) : Coherent (items.insert t a) tickets next where
  mem_items hl := Std.TreeMap.mem_insert.2 (.inr (h.mem_items hl))
  exists_key {u} hu := by
    rw [Std.TreeMap.mem_insert] at hu
    rcases hu with hu | hu
    · exact ⟨k, Std.LawfulEqOrd.eq_of_compare hu ▸ hk⟩
    · exact h.exists_key hu
  key_unique := h.key_unique
  lt_next {u} hu := by
    rw [Std.TreeMap.mem_insert] at hu
    rcases hu with hu | hu
    · exact Std.LawfulEqOrd.eq_of_compare hu ▸ h.lt_next (h.mem_items hk)
    · exact h.lt_next hu

/-- A key leaves together with its item. -/
theorem erase (h : Coherent items tickets next) {k : Key} {t : Nat} (hk : tickets[k]? = some t) :
    Coherent (items.erase t) (tickets.erase k) next where
  mem_items {l u} hl := by
    rw [Std.TreeMap.getElem?_erase] at hl
    split at hl
    · cases hl
    · next hkl =>
      refine Std.TreeMap.mem_erase.2 ⟨fun e => hkl ?_, h.mem_items hl⟩
      rw [← Std.LawfulEqOrd.eq_of_compare e] at hl
      rw [h.key_unique hk hl]
      exact Std.ReflOrd.compare_self
  exists_key {u} hu := by
    obtain ⟨hne, hu⟩ := Std.TreeMap.mem_erase.1 hu
    obtain ⟨l, hl⟩ := h.exists_key hu
    refine ⟨l, ?_⟩
    have hkl : ¬ compare k l = .eq := fun e => by
      rw [Std.LawfulEqOrd.eq_of_compare e, hl] at hk
      cases hk
      exact hne Std.ReflOrd.compare_self
    rw [Std.TreeMap.getElem?_erase, if_neg hkl, hl]
  key_unique {l m u} hl hm := by
    rw [Std.TreeMap.getElem?_erase] at hl hm
    split at hl
    · cases hl
    · split at hm
      · cases hm
      · exact h.key_unique hl hm
  lt_next hu := h.lt_next (Std.TreeMap.mem_erase.1 hu).2

end Coherent

/-! ### Operations -/

/-- The collection without items. -/
def empty : Ordered α := ⟨∅, ∅, 0, .empty⟩

instance : Inhabited (Ordered α) := ⟨empty⟩

/-- The number of items. -/
def size (c : Ordered α) : Nat := c.items.size

/-- Whether there are no items. -/
def isEmpty (c : Ordered α) : Bool := c.items.isEmpty

/-- The item with key `k`. -/
def get? (c : Ordered α) (k : Key) : Option α := c.tickets[k]?.bind fun t => c.items[t]?

/-- Whether there is an item with key `k`. -/
def contains (c : Ordered α) (k : Key) : Bool := c.tickets[k]?.isSome

/-- The items in order of arrival. -/
def toList (c : Ordered α) : List α := c.items.values

/-- Add an item at the end, under a key that is not in use. -/
def push (c : Ordered α) (k : Key) (a : α) (h : c.tickets[k]? = none) : Ordered α :=
  ⟨c.items.insert c.next a, c.tickets.insert k c.next, c.next + 1, c.coherent.push a h⟩

/-- Put an item in, in the place of the one with the same key if there is one. -/
def insert (c : Ordered α) (k : Key) (a : α) : Ordered α :=
  match h : c.tickets[k]? with
  | some t => ⟨c.items.insert t a, c.tickets, c.next, c.coherent.replace a h⟩
  | none => c.push k a h

/-- Put an item in unless there is one with the same key. -/
def insertIfNew (c : Ordered α) (k : Key) (a : α) : Ordered α :=
  match h : c.tickets[k]? with
  | some _ => c
  | none => c.push k a h

/-- Take the item with key `k` out. -/
def erase (c : Ordered α) (k : Key) : Ordered α :=
  match h : c.tickets[k]? with
  | some t => ⟨c.items.erase t, c.tickets.erase k, c.next, c.coherent.erase h⟩
  | none => c

@[simp] theorem get?_empty (k : Key) : (empty : Ordered α).get? k = none := by
  simp [get?, empty]

@[simp] theorem toList_empty : (empty : Ordered α).toList = [] := rfl

@[simp] theorem contains_empty (k : Key) : (empty : Ordered α).contains k = false := by
  simp [contains, empty]

end Ordered

/-- A map: its items are pairs of a stored key and a value. -/
abbrev OrderedMap := Ordered (Value × Value)

/-- A set: its items are its members. -/
abbrev OrderedSet := Ordered Value

namespace OrderedMap

/-- The value stored under a key. -/
def value? (m : OrderedMap) (k : Key) : Option Value := (m.get? k).map (·.2)

end OrderedMap

end TwinLisp
