import Mathlib.Data.List.Forall2
import TwinLisp.Collection.Ordered

/-!
# Ordered collections as lists

The values of a tree map are those of its entries, in the order of the keys.

## Main statements

* `mem_values_iff`: a value is listed if it is stored under some key.
* `forall₂_values`: if two maps agree key by key up to a relation, so do their lists of values.
-/

namespace TwinLisp

section Values

variable {α β : Type} [Ord α] [Std.TransOrd α] [Std.LawfulEqOrd α]

omit [Std.TransOrd α] [Std.LawfulEqOrd α] in
theorem values_eq_map_toList (t : Std.TreeMap α β) : t.values = t.toList.map (·.2) := by
  have fold : t.values = t.foldr (fun _ v l => v :: l) [] := rfl
  rw [fold, Std.TreeMap.foldr_eq_foldr_toList]
  induction t.toList with
  | nil => rfl
  | cons e es ih => simp [ih]

theorem mem_values_iff {t : Std.TreeMap α β} {v : β} : v ∈ t.values ↔ ∃ k : α, t[k]? = some v := by
  rw [values_eq_map_toList, List.mem_map]
  constructor
  · rintro ⟨⟨k, w⟩, hm, rfl⟩
    exact ⟨k, Std.TreeMap.mem_toList_iff_getElem?_eq_some.1 hm⟩
  · rintro ⟨k, hk⟩
    exact ⟨(k, v), Std.TreeMap.mem_toList_iff_getElem?_eq_some.2 hk, rfl⟩

theorem values_eq_filterMap_keys (t : Std.TreeMap α β) : t.values = t.keys.filterMap (t[·]?) := by
  have entry : ∀ e ∈ t.toList, t[e.1]? = some e.2 := fun e he =>
    Std.TreeMap.mem_toList_iff_getElem?_eq_some.1 he
  rw [values_eq_map_toList, ← Std.TreeMap.map_fst_toList_eq_keys, List.filterMap_map]
  generalize t.toList = es at entry
  induction es with
  | nil => rfl
  | cons e es ih =>
    rw [List.map_cons, List.filterMap_cons, Function.comp_apply, entry e (List.mem_cons_self ..),
      ih fun e he => entry e (List.mem_cons_of_mem _ he)]

theorem keys_eq_of_isSome {γ : Type} {t : Std.TreeMap α β} {u : Std.TreeMap α γ}
    (h : ∀ k : α, t[k]?.isSome = u[k]?.isSome) : t.keys = u.keys := by
  have mem (k : α) : k ∈ t.keys ↔ k ∈ u.keys := by
    rw [Std.TreeMap.mem_keys, Std.TreeMap.mem_keys, Std.TreeMap.mem_iff_isSome_getElem?,
      Std.TreeMap.mem_iff_isSome_getElem?, h]
  refine List.Perm.eq_of_pairwise (fun a b _ _ hab hba => ?_) Std.TreeMap.ordered_keys
    Std.TreeMap.ordered_keys
    ((List.perm_ext_iff_of_nodup Std.TreeMap.nodup_keys Std.TreeMap.nodup_keys).2 mem)
  rw [Std.OrientedOrd.eq_swap, hba] at hab
  cases hab

theorem forall₂_values {γ : Type} {R : β → γ → Prop} {t : Std.TreeMap α β} {u : Std.TreeMap α γ}
    (h : ∀ k : α, Option.Rel R t[k]? u[k]?) : List.Forall₂ R t.values u.values := by
  have keys : t.keys = u.keys := keys_eq_of_isSome fun k => by
    have := h k
    cases ht : t[k]? <;> cases hu : u[k]? <;> simp_all
  rw [values_eq_filterMap_keys, values_eq_filterMap_keys, keys]
  refine List.rel_filterMap (R := Eq) ?_ (List.forall₂_eq_eq_eq ▸ rfl)
  rintro k _ rfl
  exact h k

end Values

end TwinLisp
