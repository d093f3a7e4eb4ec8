import Mathlib.Data.List.Perm.Basic
import TwinLisp.Collection.Key

/-!
# Sorted keys

Maps and sets are compared without regard to order, because the keys of what they hold are sorted.

## Main statements

* `Key.sort_eq_of_perm`, `Key.perm_of_sort_eq`: two lists of keys are sorted into the same list
  exactly when they hold the same keys.
* `Key.sizeOf_lt_of_mem`: the parts of a key are smaller than the whole.
-/

namespace TwinLisp

namespace Key

instance : Std.TransCmp Key.compare := inferInstanceAs (Std.TransOrd Key)

theorem perm_insertSorted (k : Key) (ks : List Key) : (insertSorted k ks).Perm (k :: ks) := by
  induction ks with
  | nil => exact .refl _
  | cons x xs ih =>
    simp only [insertSorted]
    split
    · exact .refl _
    · exact (ih.cons x).trans (.swap k x xs)

theorem perm_sort (ks : List Key) : (sort ks).Perm ks := by
  induction ks with
  | nil => exact .refl _
  | cons k ks ih => exact (perm_insertSorted k _).trans (ih.cons k)

theorem pairwise_insertSorted (k : Key) {ks : List Key}
    (h : ks.Pairwise fun a b => (compare a b).isLE) :
    (insertSorted k ks).Pairwise fun a b => (compare a b).isLE := by
  induction ks with
  | nil => simp [insertSorted]
  | cons x xs ih =>
    obtain ⟨hx, hxs⟩ := List.pairwise_cons.1 h
    simp only [insertSorted]
    split
    · next hk =>
      refine List.pairwise_cons.2 ⟨fun y hy => ?_, h⟩
      rcases List.mem_cons.1 hy with rfl | hy
      · exact hk
      · exact Std.TransCmp.isLE_trans hk (hx y hy)
    · next hk =>
      refine List.pairwise_cons.2 ⟨fun y hy => ?_, ih hxs⟩
      rcases List.mem_cons.1 ((perm_insertSorted k xs).mem_iff.1 hy) with rfl | hy
      · rw [Std.OrientedCmp.lt_of_not_isLE hk]
        rfl
      · exact hx y hy

theorem pairwise_sort (ks : List Key) : (sort ks).Pairwise fun a b => (compare a b).isLE := by
  induction ks with
  | nil => exact .nil
  | cons k ks ih => exact pairwise_insertSorted k ih

/-- Sorting forgets the order. -/
theorem sort_eq_of_perm {xs ys : List Key} (h : xs.Perm ys) : sort xs = sort ys :=
  List.Perm.eq_of_pairwise
    (fun _ _ _ _ hab hba => (compare_eq_iff _ _).1 (Std.OrientedCmp.isLE_antisymm hab hba))
    (pairwise_sort xs) (pairwise_sort ys)
    (((perm_sort xs).trans h).trans (perm_sort ys).symm)

/-- Sorting forgets nothing but the order. -/
theorem perm_of_sort_eq {xs ys : List Key} (h : sort xs = sort ys) : xs.Perm ys :=
  (perm_sort xs).symm.trans (h ▸ perm_sort ys)

theorem sizeOf_lt_of_mem {k : Key} {ks : List Key} (h : k ∈ ks) : sizeOf k < sizeOf (ofList ks) := by
  induction ks with
  | nil => cases h
  | cons x xs ih =>
    simp only [ofList, pair.sizeOf_spec]
    rcases List.mem_cons.1 h with rfl | h
    · omega
    · have := ih h
      omega

theorem sizeOf_lt_of_mem_sort {k : Key} {ks : List Key} (h : k ∈ ks) :
    sizeOf k < sizeOf (ofList (sort ks)) :=
  sizeOf_lt_of_mem ((perm_sort ks).mem_iff.2 h)

/-- The keys and the values in the key of a map are smaller than its contents. -/
theorem sizeOf_lt_of_mem_entries {k : Key} {es : List (Key × Key)}
    (h : k ∈ es.map (·.1) ∨ k ∈ es.map (·.2)) :
    sizeOf k < sizeOf (ofList (sort (es.map fun e => .pair e.1 e.2))) := by
  have part : ∃ e ∈ es, k = e.1 ∨ k = e.2 := by
    rcases h with h | h
    · obtain ⟨e, he, rfl⟩ := List.mem_map.1 h
      exact ⟨e, he, .inl rfl⟩
    · obtain ⟨e, he, rfl⟩ := List.mem_map.1 h
      exact ⟨e, he, .inr rfl⟩
  obtain ⟨e, he, hk⟩ := part
  have mem : Key.pair e.1 e.2 ∈ es.map fun e => Key.pair e.1 e.2 := List.mem_map.2 ⟨e, he, rfl⟩
  have whole := sizeOf_lt_of_mem_sort mem
  rw [pair.sizeOf_spec] at whole
  rcases hk with rfl | rfl <;> omega

end Key

end TwinLisp
