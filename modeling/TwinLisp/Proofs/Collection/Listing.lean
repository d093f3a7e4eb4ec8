import Mathlib.Data.List.Nodup
import TwinLisp.Proofs.Collection.Ordered

/-!
# Ordered collections as association lists

What a collection does to its items is what one would do to a list of keys and items. An item that is
put in takes the place of the one with its key, or else goes to the end. The tickets of a collection
only say where in the list an item stands.

## Main definitions

* `Listing.put` and `Listing.add`: the two ways to put an item into an association list.
* `Listing.remove`: how to take one out.
* `Ordered.Lists`: a collection holds the items of an association list, in order.

## Main statements

* `Ordered.Lists.insert`, `Ordered.Lists.insertIfNew`, `Ordered.Lists.erase`: what is put into the
  collection is put into the list, and what is taken out is taken out.
* `Ordered.exists_lists`: every collection holds the items of a list.
* `Ordered.Lists.toList_eq`: a collection is listed as its list.
* `Listing.foldl_of_nodup`: if all keys differ, everything that is put in is there in the end.
-/

namespace TwinLisp

/-- Items with their keys. -/
abbrev Listing (α : Type) := List (Key × α)

namespace Listing

variable {α β : Type}

/-- The item in the place of the one with the same key, or else at the end. -/
def put (k : Key) (a : α) : Listing α → Listing α
  | [] => [(k, a)]
  | e :: es => if e.1 = k then (k, a) :: es else e :: put k a es

/-- The item at the end, unless there is one with the same key. -/
def add (k : Key) (a : α) : Listing α → Listing α
  | [] => [(k, a)]
  | e :: es => if e.1 = k then e :: es else e :: add k a es

/-- The list without the items that have the key. -/
def remove (k : Key) (es : Listing α) : Listing α := es.filter (·.1 ≠ k)

variable {k : Key} {a : α} {es : Listing α}

theorem remove_of_notMem (h : k ∉ es.map (·.1)) : remove k es = es := by
  apply List.filter_eq_self.2
  intro e he
  have ne : e.1 ≠ k := fun hk => h (hk ▸ List.mem_map_of_mem he)
  simpa using ne

theorem put_of_notMem (h : k ∉ es.map (·.1)) : put k a es = es ++ [(k, a)] := by
  induction es with
  | nil => rfl
  | cons e es ih =>
    rw [List.map_cons, List.mem_cons, not_or] at h
    obtain ⟨he, hes⟩ := h
    rw [put, if_neg (Ne.symm he), ih hes, List.cons_append]

theorem add_of_notMem (h : k ∉ es.map (·.1)) : add k a es = es ++ [(k, a)] := by
  induction es with
  | nil => rfl
  | cons e es ih =>
    rw [List.map_cons, List.mem_cons, not_or] at h
    obtain ⟨he, hes⟩ := h
    rw [add, if_neg (Ne.symm he), ih hes, List.cons_append]

theorem add_of_mem (h : k ∈ es.map (·.1)) : add k a es = es := by
  induction es with
  | nil => cases h
  | cons e es ih =>
    rw [add]
    split
    · rfl
    · next he =>
      rw [ih ((List.mem_cons.1 h).resolve_left (Ne.symm he))]

/-- In a list whose keys differ, the item that is replaced is the only one with its key. -/
theorem put_eq_map_of_mem (nodup : (es.map (·.1)).Nodup) (hk : k ∈ es.map (·.1)) (a : α) :
    put k a es = es.map fun e => if e.1 = k then (k, a) else e := by
  induction es with
  | nil => cases hk
  | cons e es ih =>
    obtain ⟨he, hes⟩ := List.nodup_cons.1 nodup
    rw [put, List.map_cons]
    split
    · next hek =>
      -- No other item has the key, so the rest stays as it is.
      have rest : es.map (fun e => if e.1 = k then (k, a) else e) = es.map id := by
        refine List.map_congr_left fun f hf => if_neg fun hfk => he ?_
        exact List.mem_map.2 ⟨f, hf, hfk.trans hek.symm⟩
      rw [rest, List.map_id]
    · next hek =>
      rw [ih hes ((List.mem_cons.1 hk).resolve_left (Ne.symm hek))]

theorem mem_put {e : Key × α} (he : e ∈ es.put k a) : e = (k, a) ∨ e ∈ es := by
  induction es with
  | nil => exact .inl (List.mem_singleton.1 he)
  | cons f fs ih =>
    rw [Listing.put] at he
    split at he
    · rcases List.mem_cons.1 he with rfl | he
      · exact .inl rfl
      · exact .inr (List.mem_cons_of_mem _ he)
    · rcases List.mem_cons.1 he with rfl | he
      · exact .inr (List.mem_cons_self ..)
      · exact (ih he).imp id (List.mem_cons_of_mem _)

theorem mem_add {e : Key × α} (he : e ∈ es.add k a) : e = (k, a) ∨ e ∈ es := by
  by_cases hk : k ∈ es.map (·.1)
  · rw [add_of_mem hk] at he
    exact .inr he
  · rw [add_of_notMem hk, List.mem_append, List.mem_singleton] at he
    exact he.symm

/-- In a list whose keys differ, what is found under a key is what stands there. -/
theorem lookup_eq_some_iff (nodup : (es.map (·.1)).Nodup) : es.lookup k = some a ↔ (k, a) ∈ es := by
  induction es with
  | nil => simp
  | cons e es ih =>
    obtain ⟨l, b⟩ := e
    obtain ⟨hl, hes⟩ := List.nodup_cons.1 nodup
    rw [List.lookup_cons, List.mem_cons]
    by_cases e : k = l
    · subst e
      have absent : (k, a) ∉ es := fun hk => hl (List.mem_map.2 ⟨_, hk, rfl⟩)
      simp [absent, eq_comm]
    · rw [beq_false_of_ne e]
      simp [ih hes, e]

/-- Where every new key goes to the end, keys that differ stay in the order in which they came. -/
theorem foldl_of_nodup {step : Key → α → Listing α → Listing α}
    (fresh : ∀ {k a es}, k ∉ es.map (·.1) → step k a es = es ++ [(k, a)]) {key : α → Key} {xs : List α}
    (es : Listing α) (h : (es.map (·.1) ++ xs.map key).Nodup) :
    xs.foldl (fun es x => step (key x) x es) es = es ++ xs.map fun x => (key x, x) := by
  induction xs generalizing es with
  | nil => simp
  | cons x xs ih =>
    have hx : key x ∉ es.map (·.1) := fun hx =>
      (List.nodup_append.1 h).2.2 _ hx _ (List.mem_cons_self ..) rfl
    rw [List.foldl_cons, fresh hx, ih]
    · simp
    · simpa using h

/-! ### Lists that are related

If two lists tell the same keys apart, the same happens to both. -/

variable {R : Key × α → Key × β → Prop} {l : Key} {b : β} {fs : Listing β}

theorem forall₂_put (h : List.Forall₂ R es fs) (hab : R (k, a) (l, b))
    (hk : ∀ e f, R e f → (e.1 = k ↔ f.1 = l)) : List.Forall₂ R (put k a es) (put l b fs) := by
  induction h with
  | nil => exact .cons hab .nil
  | @cons e f es fs hef hs ih =>
    rw [put, put]
    by_cases he : e.1 = k
    · rw [if_pos he, if_pos ((hk e f hef).1 he)]
      exact .cons hab hs
    · rw [if_neg he, if_neg fun hf => he ((hk e f hef).2 hf)]
      exact .cons hef ih

theorem forall₂_add (h : List.Forall₂ R es fs) (hab : R (k, a) (l, b))
    (hk : ∀ e f, R e f → (e.1 = k ↔ f.1 = l)) : List.Forall₂ R (add k a es) (add l b fs) := by
  induction h with
  | nil => exact .cons hab .nil
  | @cons e f es fs hef hs ih =>
    rw [add, add]
    by_cases he : e.1 = k
    · rw [if_pos he, if_pos ((hk e f hef).1 he)]
      exact .cons hef hs
    · rw [if_neg he, if_neg fun hf => he ((hk e f hef).2 hf)]
      exact .cons hef ih

end Listing

namespace Ordered

variable {α : Type}

/-- The rows of a collection, which are its tickets with their keys and items, in order. -/
structure Rows (c : Ordered α) (rows : List (Nat × Key × α)) : Prop where
  sorted : rows.Pairwise fun r r' => r.1 < r'.1
  items : ∀ t a, c.items[t]? = some a ↔ ∃ k, (t, k, a) ∈ rows
  tickets : ∀ k t, c.tickets[k]? = some t ↔ ∃ a, (t, k, a) ∈ rows

/-- The collection holds the items of an association list, in order. -/
def Lists (c : Ordered α) (es : Listing α) : Prop := ∃ rows, c.Rows rows ∧ es = rows.map (·.2)

namespace Rows

variable {c : Ordered α} {rows : List (Nat × Key × α)} {k : Key} {t : Nat} {a : α}

/-- A ticket belongs to one key and one item. -/
theorem eq_of_ticket (h : c.Rows rows) {r r' : Nat × Key × α} (hr : r ∈ rows) (hr' : r' ∈ rows)
    (e : r.1 = r'.1) : r = r' := by
  have nodup : (rows.map (·.1)).Nodup := by
    rw [List.Nodup, List.pairwise_map]
    exact h.sorted.imp fun lt => Nat.ne_of_lt lt
  exact List.inj_on_of_nodup_map nodup hr hr' e

/-- A key has one ticket. -/
theorem eq_of_key (h : c.Rows rows) {r r' : Nat × Key × α} (hr : r ∈ rows) (hr' : r' ∈ rows)
    (e : r.2.1 = r'.2.1) : r = r' := by
  have ticket := (h.tickets r.2.1 r.1).2 ⟨r.2.2, hr⟩
  rw [e, (h.tickets r'.2.1 r'.1).2 ⟨r'.2.2, hr'⟩, Option.some_inj] at ticket
  exact h.eq_of_ticket hr hr' ticket.symm

theorem toList_eq (h : c.Rows rows) : c.toList = rows.map (·.2.2) := by
  have entries : c.items.toList = rows.map fun r => (r.1, r.2.2) := by
    have sorted : (rows.map fun r => (r.1, r.2.2)).Pairwise fun e f => e.1 < f.1 := by
      rw [List.pairwise_map]
      exact h.sorted
    have sorted' : c.items.toList.Pairwise fun e f => e.1 < f.1 :=
      Std.TreeMap.ordered_keys_toList.imp fun h => Nat.compare_eq_lt.1 h
    have nodup {es : List (Nat × α)} (hs : es.Pairwise fun e f => e.1 < f.1) : es.Nodup :=
      hs.imp fun lt e => Nat.ne_of_lt lt (congrArg Prod.fst e)
    refine List.Perm.eq_of_pairwise ?_ sorted' sorted
      ((List.perm_ext_iff_of_nodup (nodup sorted') (nodup sorted)).2 fun e => ?_)
    · intro e f _ _ lt gt
      exact absurd gt (Nat.lt_asymm lt)
    · rw [← Prod.eta e, Std.TreeMap.mem_toList_iff_getElem?_eq_some, h.items, List.mem_map]
      constructor
      · rintro ⟨k, hk⟩
        exact ⟨_, hk, rfl⟩
      · rintro ⟨r, hr, he⟩
        rw [← (Prod.mk.inj he).1, ← (Prod.mk.inj he).2]
        exact ⟨r.2.1, hr⟩
  rw [Ordered.toList, values_eq_map_toList, entries, List.map_map]
  rfl

theorem ticket_lt (h : c.Rows rows) {r : Nat × Key × α} (hr : r ∈ rows) : r.1 < c.next := by
  refine c.coherent.lt_next (Std.TreeMap.mem_iff_isSome_getElem?.2 ?_)
  rw [(h.items r.1 r.2.2).2 ⟨r.2.1, hr⟩]
  rfl

/-- A new key stands in a new row. -/
theorem push (h : c.Rows rows) (hk : c.tickets[k]? = none) (a : α) :
    (c.push k a hk).Rows (rows ++ [(c.next, k, a)]) where
  sorted := by
    refine List.pairwise_append.2 ⟨h.sorted, List.pairwise_singleton .., fun r hr r' hr' => ?_⟩
    rw [List.mem_singleton.1 hr']
    exact h.ticket_lt hr
  items u b := by
    simp only [Ordered.push, Std.TreeMap.getElem?_insert, Nat.compare_eq_eq, List.mem_append,
      List.mem_singleton]
    by_cases e : c.next = u
    · subst e
      have unused (l : Key) : (c.next, l, b) ∉ rows := fun hl => Nat.lt_irrefl _ (h.ticket_lt hl)
      simp [unused, eq_comm]
    · rw [if_neg e, h.items]
      simp [Ne.symm e]
  tickets l u := by
    simp only [Ordered.push, Std.TreeMap.getElem?_insert, List.mem_append, List.mem_singleton]
    by_cases e : compare k l = .eq
    · rw [if_pos e]
      obtain rfl := Std.LawfulEqOrd.eq_of_compare e
      have absent (b : α) : (u, k, b) ∉ rows := fun hb => by
        rw [(h.tickets k u).2 ⟨b, hb⟩] at hk
        cases hk
      simp [absent, eq_comm]
    · rw [if_neg e, h.tickets]
      have ne : l ≠ k := fun e' => e (e' ▸ Std.ReflOrd.compare_self)
      simp [ne]

/-- An item is replaced in its row. -/
theorem replace (h : c.Rows rows) (hk : c.tickets[k]? = some t) (a : α) :
    (⟨c.items.insert t a, c.tickets, c.next, c.coherent.replace a hk⟩ : Ordered α).Rows
      (rows.map fun r => if r.2.1 = k then (r.1, k, a) else r) where
  sorted := by
    rw [List.pairwise_map]
    refine h.sorted.imp fun {r r'} lt => ?_
    split <;> split <;> exact lt
  items u b := by
    obtain ⟨old, hold⟩ := (h.tickets k t).1 hk
    simp only [Std.TreeMap.getElem?_insert, Nat.compare_eq_eq, List.mem_map]
    by_cases e : t = u
    · subst e
      rw [if_pos rfl]
      constructor
      · intro hb
        cases hb
        exact ⟨k, (t, k, old), hold, if_pos rfl⟩
      · rintro ⟨l, r, hr, he⟩
        split at he
        · cases he
          rfl
        · next ne =>
          subst he
          exact absurd (congrArg (·.2.1) (h.eq_of_ticket hr hold rfl)) ne
    · rw [if_neg e, h.items]
      constructor
      · rintro ⟨l, hl⟩
        refine ⟨l, (u, l, b), hl, if_neg fun e' => e ?_⟩
        exact congrArg (·.1) (h.eq_of_key hold hl e'.symm)
      · rintro ⟨l, r, hr, he⟩
        split at he
        · next e' =>
          cases he
          exact absurd (congrArg (·.1) (h.eq_of_key hold hr e'.symm)) e
        · subst he
          exact ⟨l, hr⟩
  tickets l u := by
    rw [h.tickets]
    simp only [List.mem_map]
    constructor
    · rintro ⟨b, hb⟩
      by_cases e : l = k
      · exact ⟨a, (u, l, b), hb, by simp [e]⟩
      · exact ⟨b, (u, l, b), hb, by simp [e]⟩
    · rintro ⟨b, r, hr, he⟩
      split at he
      · next e =>
        cases he
        exact ⟨r.2.2, e ▸ hr⟩
      · subst he
        exact ⟨b, hr⟩

/-- A row is taken out. -/
theorem erase (h : c.Rows rows) (hk : c.tickets[k]? = some t) :
    (⟨c.items.erase t, c.tickets.erase k, c.next, c.coherent.erase hk⟩ : Ordered α).Rows
      (rows.filter (·.2.1 ≠ k)) where
  sorted := h.sorted.filter _
  items u b := by
    obtain ⟨old, hold⟩ := (h.tickets k t).1 hk
    simp only [Std.TreeMap.getElem?_erase, Nat.compare_eq_eq, List.mem_filter, decide_eq_true_eq]
    by_cases e : t = u
    · subst e
      rw [if_pos rfl]
      -- Whatever has this ticket is the row that goes.
      refine iff_of_false (by simp) ?_
      rintro ⟨l, hl, ne⟩
      exact ne (congrArg (·.2.1) (h.eq_of_ticket hl hold rfl))
    · rw [if_neg e, h.items]
      refine exists_congr fun l => (and_iff_left_of_imp fun hl el => e ?_).symm
      exact congrArg (·.1) (h.eq_of_key hold hl el.symm)
  tickets l u := by
    simp only [Std.TreeMap.getElem?_erase, List.mem_filter, decide_eq_true_eq]
    by_cases e : compare k l = .eq
    · rw [if_pos e]
      obtain rfl := Std.LawfulEqOrd.eq_of_compare e
      simp
    · rw [if_neg e, h.tickets]
      have ne : l ≠ k := fun e' => e (e' ▸ Std.ReflOrd.compare_self)
      simp [ne]

end Rows

namespace Lists

variable {c : Ordered α} {es : Listing α} {k : Key} {t : Nat} {a : α}

theorem empty : (empty : Ordered α).Lists [] :=
  ⟨[], ⟨.nil, fun t a => by simp [Ordered.empty], fun k t => by simp [Ordered.empty]⟩, rfl⟩

/-- **A collection is listed as its list.** -/
theorem toList_eq (h : c.Lists es) : c.toList = es.map (·.2) := by
  obtain ⟨rows, hr, rfl⟩ := h
  rw [hr.toList_eq, List.map_map]
  rfl

theorem mem_toList (h : c.Lists es) {e : Key × α} (he : e ∈ es) : e.2 ∈ c.toList := by
  rw [h.toList_eq]
  exact List.mem_map_of_mem he

theorem mem_keys_iff (h : c.Lists es) : k ∈ es.map (·.1) ↔ ∃ t, c.tickets[k]? = some t := by
  obtain ⟨rows, hr, rfl⟩ := h
  simp only [hr.tickets, List.map_map, List.mem_map]
  constructor
  · rintro ⟨r, hm, rfl⟩
    exact ⟨r.1, r.2.2, hm⟩
  · rintro ⟨t, a, hm⟩
    exact ⟨_, hm, rfl⟩

theorem notMem_keys (h : c.Lists es) (hk : c.tickets[k]? = none) : k ∉ es.map (·.1) := by
  intro hm
  obtain ⟨t, ht⟩ := h.mem_keys_iff.1 hm
  rw [hk] at ht
  cases ht

theorem push (h : c.Lists es) (hk : c.tickets[k]? = none) (a : α) :
    (c.push k a hk).Lists (es ++ [(k, a)]) := by
  obtain ⟨rows, hr, rfl⟩ := h
  exact ⟨_, hr.push hk a, by simp⟩

theorem nodup_keys (h : c.Lists es) : (es.map (·.1)).Nodup := by
  obtain ⟨rows, hr, rfl⟩ := h
  rw [List.map_map, List.Nodup, List.pairwise_map]
  exact hr.sorted.imp_of_mem fun {r r'} hm hm' lt e => Nat.ne_of_lt lt <|
    congrArg (·.1) (hr.eq_of_key hm hm' e)

/-! #### What is found -/

theorem get?_eq_some_iff (h : c.Lists es) : c.get? k = some a ↔ (k, a) ∈ es := by
  obtain ⟨rows, hr, rfl⟩ := h
  simp only [get?, Option.bind_eq_some_iff, hr.tickets, hr.items, List.mem_map]
  constructor
  · rintro ⟨t, ⟨b, hb⟩, l, hl⟩
    have row : (t, k, b) = (t, l, a) := hr.eq_of_ticket hb hl rfl
    cases row
    exact ⟨_, hb, rfl⟩
  · rintro ⟨⟨t, r⟩, hm, rfl⟩
    exact ⟨t, ⟨a, hm⟩, k, hm⟩

theorem get?_eq (h : c.Lists es) (k : Key) : c.get? k = es.lookup k := by
  apply Option.ext
  intro a
  rw [h.get?_eq_some_iff, Listing.lookup_eq_some_iff h.nodup_keys]

theorem contains_eq (h : c.Lists es) (k : Key) :
    c.contains k = decide (k ∈ es.map (·.1)) := by
  apply Bool.eq_iff_iff.2
  rw [decide_eq_true_iff, h.mem_keys_iff]
  exact Option.isSome_iff_exists

theorem size_eq (h : c.Lists es) : c.size = es.length := by
  have listed := congrArg List.length h.toList_eq
  rw [toList, values_eq_map_toList, List.length_map, List.length_map, Std.TreeMap.length_toList]
    at listed
  exact listed

theorem isEmpty_eq (h : c.Lists es) : c.isEmpty = es.isEmpty := by
  have size : c.items.size = es.length := h.size_eq
  rw [isEmpty, Std.TreeMap.isEmpty_eq_size_eq_zero, size]
  cases es <;> rfl

/-! #### Changes -/

/-- **What is put into the collection is put into the list.** -/
theorem insert (h : c.Lists es) (k : Key) (a : α) : (c.insert k a).Lists (es.put k a) := by
  unfold Ordered.insert
  split
  · next t hk =>
    rw [Listing.put_eq_map_of_mem h.nodup_keys (h.mem_keys_iff.2 ⟨t, hk⟩)]
    obtain ⟨rows, hr, rfl⟩ := h
    refine ⟨_, hr.replace hk a, ?_⟩
    rw [List.map_map, List.map_map]
    refine List.map_congr_left fun r _ => ?_
    simp only [Function.comp_apply]
    split <;> rfl
  · next hk =>
    rw [Listing.put_of_notMem (h.notMem_keys hk)]
    exact h.push hk a

theorem insertIfNew (h : c.Lists es) (k : Key) (a : α) : (c.insertIfNew k a).Lists (es.add k a) := by
  unfold Ordered.insertIfNew
  split
  · next t hk =>
    rw [Listing.add_of_mem (h.mem_keys_iff.2 ⟨t, hk⟩)]
    exact h
  · next hk =>
    rw [Listing.add_of_notMem (h.notMem_keys hk)]
    exact h.push hk a

theorem erase (h : c.Lists es) (k : Key) : (c.erase k).Lists (es.remove k) := by
  unfold Ordered.erase
  split
  · next t hk =>
    obtain ⟨rows, hr, rfl⟩ := h
    refine ⟨_, hr.erase hk, ?_⟩
    rw [Listing.remove, List.filter_map]
    rfl
  · next hk =>
    rw [Listing.remove_of_notMem (h.notMem_keys hk)]
    exact h

end Lists

/-- Every collection is that of some list. -/
theorem exists_lists (c : Ordered α) : ∃ es, c.Lists es := by
  classical
  obtain ⟨keyOf, hkey⟩ : ∃ keyOf : Nat → Key, ∀ t ∈ c.items, c.tickets[keyOf t]? = some t := by
    choose! keyOf hkey using fun t (ht : t ∈ c.items) => c.coherent.exists_key ht
    exact ⟨keyOf, hkey⟩
  have mem_items {t : Nat} {a : α} (ha : c.items[t]? = some a) : t ∈ c.items :=
    Std.TreeMap.mem_iff_isSome_getElem?.2 (Option.isSome_of_eq_some ha)
  have mem_rows {t : Nat} {k : Key} {a : α} :
      (t, k, a) ∈ c.items.toList.map (fun e => (e.1, keyOf e.1, e.2)) ↔
        c.items[t]? = some a ∧ keyOf t = k := by
    rw [← Std.TreeMap.mem_toList_iff_getElem?_eq_some, List.mem_map]
    constructor
    · rintro ⟨⟨u, b⟩, hm, e⟩
      cases e
      exact ⟨hm, rfl⟩
    · rintro ⟨hm, rfl⟩
      exact ⟨_, hm, rfl⟩
  refine ⟨_, c.items.toList.map fun e => (e.1, keyOf e.1, e.2), ⟨?_, fun t a => ?_, fun k t => ?_⟩, rfl⟩
  · rw [List.pairwise_map]
    exact Std.TreeMap.ordered_keys_toList.imp fun h => Nat.compare_eq_lt.1 h
  · simp [mem_rows]
  · simp only [mem_rows, exists_and_right]
    constructor
    · intro ht
      have hm := c.coherent.mem_items ht
      obtain ⟨a, ha⟩ := Option.isSome_iff_exists.1 (Std.TreeMap.mem_iff_isSome_getElem?.1 hm)
      exact ⟨⟨a, ha⟩, c.coherent.key_unique (hkey t hm) ht⟩
    · rintro ⟨⟨a, ha⟩, rfl⟩
      exact hkey t (mem_items ha)

end Ordered

end TwinLisp
