import TwinLisp.Proofs.Collection.Ordered
import TwinLisp.Proofs.Correspondence.Key

/-!
# Corresponding collections

Two collections correspond if they gave the same tickets to keys that correspond, for items that
correspond. As keys correspond one to one, every operation with corresponding keys and items leads
to corresponding results.

## Main statements

* `Ordered.Match.tickets_eq`: corresponding keys have the same ticket.
* `Ordered.Match.insert`, `Ordered.Match.insertIfNew`, `Ordered.Match.erase`: operations lead to
  corresponding collections.
* `Ordered.Match.get?`, `Ordered.Match.toList`: and they are found and listed alike.
-/

namespace TwinLisp

/-- Two collections correspond, item by item and key by key. -/
structure Ordered.Match {α : Type} (w : World) (R : α → α → Prop) (c d : Ordered α) : Prop where
  next : c.next = d.next
  items : ∀ t : Nat, Option.Rel R c.items[t]? d.items[t]?
  forth : ∀ {k : Key} {t : Nat}, c.tickets[k]? = some t → ∃ l, Key.Match w k l ∧ d.tickets[l]? = some t
  back : ∀ {l : Key} {t : Nat}, d.tickets[l]? = some t → ∃ k, Key.Match w k l ∧ c.tickets[k]? = some t
  /-- In one session they are the same collection. -/
  eq : w.isSelf → c = d

namespace Ordered.Match

variable {α : Type} {w w' : World} {R S : α → α → Prop} {c d : Ordered α} {k l : Key} {a b : α}

/-- Collections of items that correspond elsewhere do so as well. -/
theorem imp (h : c.Match w R d) (hw : w'.isSelf → w.isSelf) (hs : ∀ x y, w.sym x y → w'.sym x y)
    (hp : ∀ a b, w.pair a b → w'.pair a b) (hR : ∀ a ∈ c.toList, ∀ b, R a b → S a b) :
    c.Match w' S d where
  next := h.next
  items t := by
    have held (a : α) (ha : c.items[t]? = some a) : a ∈ c.toList := mem_values_iff.2 ⟨t, ha⟩
    have related := h.items t
    generalize c.items[t]? = x at held related ⊢
    generalize d.items[t]? = y at related ⊢
    cases related with
    | none => exact .none
    | some hr => exact .some (hR _ (held _ rfl) _ hr)
  forth ht :=
    have ⟨l, hl, ht⟩ := h.forth ht
    ⟨l, hl.imp hs hp, ht⟩
  back ht :=
    have ⟨k, hk, ht⟩ := h.back ht
    ⟨k, hk.imp hs hp, ht⟩
  eq hs := h.eq (hw hs)

theorem mono (h : c.Match w R d) (hw : w ≤ w') (hR : ∀ a b, R a b → S a b) : c.Match w' S d :=
  h.imp hw.isSelf.1 (fun _ _ => hw.sym) (fun _ _ => hw.pair) fun a _ => hR a

/-- Corresponding keys have the same ticket. -/
theorem tickets_eq (h : c.Match w R d) (hw : w.Unique) (hk : Key.Match w k l) :
    c.tickets[k]? = d.tickets[l]? := by
  cases ht : c.tickets[k]? with
  | some t =>
    obtain ⟨l', hl', ht'⟩ := h.forth ht
    rw [hk.right_unique hw hl', ht']
  | none =>
    cases hu : d.tickets[l]? with
    | none => rfl
    | some t =>
      obtain ⟨k', hk', ht'⟩ := h.back hu
      rw [hk.left_unique hw hk', ht'] at ht
      cases ht

/-! ### Finding and listing -/

theorem get? (h : c.Match w R d) (hw : w.Unique) (hk : Key.Match w k l) :
    Option.Rel R (c.get? k) (d.get? l) := by
  rw [Ordered.get?, Ordered.get?, h.tickets_eq hw hk]
  cases d.tickets[l]? with
  | none => exact .none
  | some t => exact h.items t

theorem contains_eq (h : c.Match w R d) (hw : w.Unique) (hk : Key.Match w k l) :
    c.contains k = d.contains l := by
  rw [Ordered.contains, Ordered.contains, h.tickets_eq hw hk]

theorem toList (h : c.Match w R d) : List.Forall₂ R c.toList d.toList := forall₂_values h.items

theorem size_eq (h : c.Match w R d) : c.size = d.size := by
  have length (e : Ordered α) : e.size = e.toList.length := by
    rw [Ordered.size, Ordered.toList, values_eq_map_toList, List.length_map,
      Std.TreeMap.length_toList]
  rw [length, length, h.toList.length_eq]

theorem isEmpty_eq (h : c.Match w R d) : c.isEmpty = d.isEmpty := by
  have size (e : Ordered α) : e.isEmpty = (e.size == 0) := Std.TreeMap.isEmpty_eq_size_eq_zero
  rw [size, size, h.size_eq]

/-! ### Changes -/

theorem empty : (empty : Ordered α).Match w R .empty where
  next := rfl
  items t := by simp [Ordered.empty]
  forth ht := by simp [Ordered.empty] at ht
  back ht := by simp [Ordered.empty] at ht
  eq _ := rfl

theorem items_insert {t : Nat} (h : c.Match w R d) (hab : R a b) (u : Nat) :
    Option.Rel R (c.items.insert t a)[u]? (d.items.insert t b)[u]? := by
  rw [Std.TreeMap.getElem?_insert, Std.TreeMap.getElem?_insert]
  split
  · exact .some hab
  · exact h.items u

theorem push (h : c.Match w R d) (hk : Key.Match w k l) (hab : R a b) (he : w.isSelf → a = b)
    (hc : c.tickets[k]? = none) (hd : d.tickets[l]? = none) :
    (c.push k a hc).Match w R (d.push l b hd) where
  next := congrArg (· + 1) h.next
  items u := by
    have := h.items_insert hab u (t := d.next)
    simpa only [Ordered.push, h.next] using this
  forth {m t} ht := by
    simp only [Ordered.push, Std.TreeMap.getElem?_insert] at ht
    split at ht
    · next e =>
      cases ht
      refine ⟨l, Std.LawfulEqOrd.eq_of_compare e ▸ hk, ?_⟩
      simp [Ordered.push, h.next]
    · obtain ⟨n, hn, hu⟩ := h.forth ht
      refine ⟨n, hn, ?_⟩
      have ne : ¬ compare l n = .eq := fun e => by
        rw [← Std.LawfulEqOrd.eq_of_compare e, hd] at hu
        cases hu
      rw [Ordered.push, Std.TreeMap.getElem?_insert, if_neg ne, hu]
  back {m t} ht := by
    simp only [Ordered.push, Std.TreeMap.getElem?_insert] at ht
    split at ht
    · next e =>
      cases ht
      refine ⟨k, Std.LawfulEqOrd.eq_of_compare e ▸ hk, ?_⟩
      simp [Ordered.push, h.next]
    · obtain ⟨n, hn, hu⟩ := h.back ht
      refine ⟨n, hn, ?_⟩
      have ne : ¬ compare k n = .eq := fun e => by
        rw [← Std.LawfulEqOrd.eq_of_compare e, hc] at hu
        cases hu
      rw [Ordered.push, Std.TreeMap.getElem?_insert, if_neg ne, hu]
  eq hs := by
    obtain rfl := h.eq hs
    obtain rfl := hk.eq hs
    obtain rfl := he hs
    rfl

theorem insert (h : c.Match w R d) (hw : w.Unique) (hk : Key.Match w k l) (hab : R a b)
    (he : w.isSelf → a = b) : (c.insert k a).Match w R (d.insert l b) := by
  have ht := h.tickets_eq hw hk
  unfold Ordered.insert
  split <;> split
  · next hc _ hd =>
    rw [hc, hd] at ht
    cases ht
    refine ⟨h.next, h.items_insert hab, h.forth, h.back, fun hs => ?_⟩
    obtain rfl := h.eq hs
    obtain rfl := he hs
    rfl
  · next hc hd =>
    rw [hc, hd] at ht
    cases ht
  · next hc _ hd =>
    rw [hc, hd] at ht
    cases ht
  · exact h.push hk hab he _ _

theorem insertIfNew (h : c.Match w R d) (hw : w.Unique) (hk : Key.Match w k l) (hab : R a b)
    (he : w.isSelf → a = b) : (c.insertIfNew k a).Match w R (d.insertIfNew l b) := by
  have ht := h.tickets_eq hw hk
  unfold Ordered.insertIfNew
  split <;> split
  · exact h
  · next hc hd =>
    rw [hc, hd] at ht
    cases ht
  · next hc _ hd =>
    rw [hc, hd] at ht
    cases ht
  · exact h.push hk hab he _ _

theorem erase_aux {t : Nat} (h : c.Match w R d) (hw : w.Unique) (hk : Key.Match w k l)
    (hc : c.tickets[k]? = some t) (hd : d.tickets[l]? = some t) :
    Ordered.Match w R ⟨c.items.erase t, c.tickets.erase k, c.next, c.coherent.erase hc⟩
      ⟨d.items.erase t, d.tickets.erase l, d.next, d.coherent.erase hd⟩ where
  next := h.next
  items u := by
    simp only [Std.TreeMap.getElem?_erase]
    split
    · exact .none
    · exact h.items u
  forth {m u} hu := by
    simp only [Std.TreeMap.getElem?_erase] at hu ⊢
    split at hu
    · cases hu
    · next ne =>
      obtain ⟨n, hn, hu⟩ := h.forth hu
      refine ⟨n, hn, ?_⟩
      rw [if_neg fun e => ne ?_, hu]
      rw [← Std.LawfulEqOrd.eq_of_compare e] at hn
      rw [hk.left_unique hw hn]
      exact Std.ReflOrd.compare_self
  back {m u} hu := by
    simp only [Std.TreeMap.getElem?_erase] at hu ⊢
    split at hu
    · cases hu
    · next ne =>
      obtain ⟨n, hn, hu⟩ := h.back hu
      refine ⟨n, hn, ?_⟩
      rw [if_neg fun e => ne ?_, hu]
      rw [← Std.LawfulEqOrd.eq_of_compare e] at hn
      rw [hk.right_unique hw hn]
      exact Std.ReflOrd.compare_self
  eq hs := by
    obtain rfl := h.eq hs
    obtain rfl := hk.eq hs
    rfl

theorem erase (h : c.Match w R d) (hw : w.Unique) (hk : Key.Match w k l) :
    (c.erase k).Match w R (d.erase l) := by
  have ht := h.tickets_eq hw hk
  unfold Ordered.erase
  split <;> split
  · next hc _ hd =>
    rw [hc, hd] at ht
    cases ht
    exact h.erase_aux hw hk hc hd
  · next hc hd =>
    rw [hc, hd] at ht
    cases ht
  · next hc _ hd =>
    rw [hc, hd] at ht
    cases ht
  · exact h

end Ordered.Match

end TwinLisp
