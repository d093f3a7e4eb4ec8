import TwinLisp.Proofs.Collection.Listing

/-!
# Collections refine association lists

Nothing that can be observed of a collection tells it from the association list that the same updates
build: not how many items there are, not which item a key leads to, and not the order of the items. Items
that come with the same keys are found under the same keys, in whatever order they came.

## Main definitions

* `Ordered.Update`: what is done to a collection. `Ordered.afterAll` does it to the collection and
  `Listing.afterAll` to the list.
* `Ordered.Mirrors`: a collection is observed as a list.

## Main statements

* `Ordered.Lists.afterAll`: a collection holds what was put into the list.
* `Ordered.mirrors_listings`: the refinement, for maps and for sets.
-/

namespace TwinLisp

variable {α : Type}

/-- What is done to a collection. -/
inductive Ordered.Update (α : Type) where
  /-- Put an item in, in the place of the one with its key. -/
  | assoc (k : Key) (a : α)
  /-- Put an item in unless there is one with its key. -/
  | conj (k : Key) (a : α)
  /-- Take the item with the key out. -/
  | remove (k : Key)

namespace Listing

open Ordered (Update)

/-- The list after an update. -/
def after (es : Listing α) : Update α → Listing α
  | .assoc k a => es.put k a
  | .conj k a => es.add k a
  | .remove k => es.remove k

/-- The list after some updates. -/
def afterAll (es : Listing α) (us : List (Update α)) : Listing α := us.foldl after es

end Listing

namespace Ordered

/-- The collection after an update. -/
def after (c : Ordered α) : Update α → Ordered α
  | .assoc k a => c.insert k a
  | .conj k a => c.insertIfNew k a
  | .remove k => c.erase k

/-- The collection after some updates. -/
def afterAll (c : Ordered α) (us : List (Update α)) : Ordered α := us.foldl after c

/-- A key is the key of its item in what an update puts in. -/
def Update.KeyedBy (key : α → Key) : Update α → Prop
  | .assoc k a => k = key a
  | .conj k a => k = key a
  | .remove _ => True

/-- A collection is observed as a list. Its tickets and its items correspond to each other, and all tickets
come before the next one. -/
structure Mirrors (c : Ordered α) (es : Listing α) : Prop where
  mem_items : ∀ (k : Key) (t : Nat), c.tickets[k]? = some t → t ∈ c.items
  existsUnique_key : ∀ t ∈ c.items, ∃! k : Key, c.tickets[k]? = some t
  lt_next : ∀ t ∈ c.items, t < c.next
  size : c.size = es.length
  isEmpty : c.isEmpty = es.isEmpty
  get? : ∀ k, c.get? k = es.lookup k
  contains : ∀ k, c.contains k = decide (k ∈ es.map (·.1))
  toList : c.toList = es.map (·.2)

variable {c d : Ordered α} {es fs : Listing α} {k : Key} {a : α}

/-! ### Updates -/

theorem Lists.after (h : c.Lists es) (u : Update α) : (c.after u).Lists (es.after u) := by
  cases u with
  | assoc k a => exact h.insert k a
  | conj k a => exact h.insertIfNew k a
  | remove k => exact h.erase k

theorem Lists.afterAll (h : c.Lists es) (us : List (Update α)) :
    (c.afterAll us).Lists (es.afterAll us) := by
  induction us generalizing c es with
  | nil => exact h
  | cons u us ih => exact ih (h.after u)

/-- An update gives out one ticket at most. -/
theorem next_after_le (c : Ordered α) (u : Update α) : (c.after u).next ≤ c.next + 1 := by
  cases u with
  | assoc k a =>
    show (c.insert k a).next ≤ _
    unfold insert
    split
    · exact Nat.le_succ _
    · exact Nat.le_refl _
  | conj k a =>
    show (c.insertIfNew k a).next ≤ _
    unfold insertIfNew
    split
    · exact Nat.le_succ _
    · exact Nat.le_refl _
  | remove k =>
    show (c.erase k).next ≤ _
    unfold erase
    split <;> exact Nat.le_succ _

theorem next_afterAll_le (c : Ordered α) (us : List (Update α)) :
    (c.afterAll us).next ≤ c.next + us.length := by
  induction us generalizing c with
  | nil => exact Nat.le_refl _
  | cons u us ih =>
    have step := c.next_after_le u
    have rest : ((c.after u).afterAll us).next ≤ (c.after u).next + us.length := ih (c.after u)
    show ((c.after u).afterAll us).next ≤ c.next + (us.length + 1)
    omega

/-! ### Observations -/

/-- What is in a collection decides what is found in it, whatever the order. -/
theorem Lists.get?_of_perm (hc : c.Lists es) (hd : d.Lists fs) (perm : es.Perm fs) (k : Key) :
    c.get? k = d.get? k := by
  apply Option.ext
  intro a
  rw [hc.get?_eq_some_iff, hd.get?_eq_some_iff, perm.mem_iff]

theorem Lists.mirrors (h : c.Lists es) : c.Mirrors es where
  mem_items _ _ := c.coherent.mem_items
  existsUnique_key _ ht :=
    (c.coherent.exists_key ht).imp fun _ hk => ⟨hk, fun _ hl => c.coherent.key_unique hl hk⟩
  lt_next _ := c.coherent.lt_next
  size := h.size_eq
  isEmpty := h.isEmpty_eq
  get? := h.get?_eq
  contains := h.contains_eq
  toList := h.toList_eq

/-! ### Items that decide their keys -/

variable {key : α → Key} {u : Update α}

theorem mem_after {e : Key × α} (hu : u.KeyedBy key) (he : e ∈ es.after u) :
    e.1 = key e.2 ∨ e ∈ es := by
  cases u with
  | assoc k a =>
    rcases Listing.mem_put he with rfl | he
    · exact .inl hu
    · exact .inr he
  | conj k a =>
    rcases Listing.mem_add he with rfl | he
    · exact .inl hu
    · exact .inr he
  | remove k => exact .inr (List.mem_filter.1 he).1

/-- Where all updates use the keys of their items, every item of the list stands under its key. -/
theorem eq_key_of_mem_afterAll {us : List (Update α)} (hus : ∀ u ∈ us, u.KeyedBy key)
    (hes : ∀ e ∈ es, e.1 = key e.2) : ∀ e ∈ es.afterAll us, e.1 = key e.2 := by
  induction us generalizing es with
  | nil => exact hes
  | cons u us ih =>
    refine ih (fun v hv => hus v (List.mem_cons_of_mem _ hv)) fun e he => ?_
    exact (mem_after (hus u (List.mem_cons_self ..)) he).elim id (hes e)

theorem lists_afterAll (us : List (Update α)) :
    (empty.afterAll us).Lists (Listing.afterAll [] us) :=
  Lists.empty.afterAll us

/-- Where items decide their keys, the same items are found under the same keys. -/
theorem get?_eq_of_perm {us vs : List (Update α)} (keyed : ∀ u ∈ us ++ vs, u.KeyedBy key)
    (perm : (empty.afterAll us).toList.Perm (empty.afterAll vs).toList) (k : Key) :
    (empty.afterAll us).get? k = (empty.afterAll vs).get? k := by
  -- Either list consists of the items, each with its key.
  have paired (ws : List (Update α)) (hws : ∀ u ∈ ws, u.KeyedBy key) :
      Listing.afterAll [] ws = (empty.afterAll ws).toList.map fun a => (key a, a) := by
    rw [(lists_afterAll ws).toList_eq, List.map_map]
    refine ((List.map_congr_left fun e he => ?_).trans (List.map_id _)).symm
    have under := eq_key_of_mem_afterAll hws (by simp) e he
    exact Prod.ext under.symm rfl
  refine (lists_afterAll us).get?_of_perm (lists_afterAll vs) ?_ k
  rw [paired us fun u hu => keyed u (List.mem_append_left _ hu),
    paired vs fun u hu => keyed u (List.mem_append_right _ hu)]
  exact perm.map _

theorem next_le (us : List (Update α)) : (empty.afterAll us).next ≤ us.length := by
  have bound := next_afterAll_le empty us
  rwa [show (empty : Ordered α).next = 0 from rfl, Nat.zero_add] at bound

/-- **Maps and sets refine association lists.** Whatever updates build a map or a set, its tickets and its
items correspond to each other, no ticket is out of range or given out twice, and it is observed as the list
that the same updates build. If items decide their keys, collections with the same items find the same items,
in whatever order they were built. -/
theorem mirrors_listings :
    (∀ us : List (Update (Value × Value)),
      let m : OrderedMap := empty.afterAll us
      m.Mirrors (Listing.afterAll [] us) ∧ m.next ≤ us.length ∧
      (∀ k, m.value? k = ((Listing.afterAll [] us).lookup k).map (·.2)) ∧
      ∀ (key : Value → Key) vs, (∀ u ∈ us ++ vs, u.KeyedBy fun e => key e.1) →
        m.toList.Perm (empty.afterAll vs).toList → ∀ k, m.get? k = (empty.afterAll vs).get? k) ∧
    ∀ us : List (Update Value),
      let s : OrderedSet := empty.afterAll us
      s.Mirrors (Listing.afterAll [] us) ∧ s.next ≤ us.length ∧
      ∀ (key : Value → Key) vs, (∀ u ∈ us ++ vs, u.KeyedBy key) →
        s.toList.Perm (empty.afterAll vs).toList → ∀ k, s.get? k = (empty.afterAll vs).get? k := by
  constructor
  · intro us
    refine ⟨(lists_afterAll us).mirrors, next_le us, fun k => ?_, fun _ _ => get?_eq_of_perm⟩
    rw [OrderedMap.value?, (lists_afterAll us).get?_eq]
  · intro us
    exact ⟨(lists_afterAll us).mirrors, next_le us, fun _ _ => get?_eq_of_perm⟩

end Ordered

end TwinLisp
