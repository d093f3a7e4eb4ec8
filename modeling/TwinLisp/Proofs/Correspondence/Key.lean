import TwinLisp.Proofs.Collection.Key
import TwinLisp.Proofs.Collection.Pairwise
import TwinLisp.Proofs.Correspondence.World

/-!
# Corresponding keys

## Main statements

* `Key.Match.right_unique`, `Key.Match.left_unique`: no key corresponds to two.
* `Key.Match.eq`: in a session that is compared with itself, keys correspond to themselves.
-/

namespace TwinLisp

/-- Two keys correspond: they are made in the same way of the same data, of names that correspond
and of objects that were matched. -/
inductive Key.Match (w : World) : Key → Key → Prop where
  /-- Data without names and addresses. -/
  | plain {tag : Nat} (h : tag ≤ 4 ∨ tag = 7) (k : Key) :
    Match w (.pair (.num tag) k) (.pair (.num tag) k)
  | symbol {i j : Nat} (h : w.sym ⟨i⟩ ⟨j⟩) : Match w (.pair (.num 5) (.num i)) (.pair (.num 5) (.num j))
  | keyword {i j : Nat} (h : w.sym ⟨i⟩ ⟨j⟩) :
    Match w (.pair (.num 6) (.num i)) (.pair (.num 6) (.num j))
  | sequence {c d : Key} {xs ys : List Key} (hc : c = ofList xs) (hd : d = ofList ys)
    (h : List.Forall₂ (Match w) xs ys) : Match w (.pair (.num 8) c) (.pair (.num 8) d)
  | map {c d : Key} {xs ys : List (Key × Key)}
    (hc : c = ofList (sort (xs.map fun e => .pair e.1 e.2)))
    (hd : d = ofList (sort (ys.map fun e => .pair e.1 e.2)))
    (hk : List.Forall₂ (Match w) (xs.map (·.1)) (ys.map (·.1)))
    (hv : List.Forall₂ (Match w) (xs.map (·.2)) (ys.map (·.2))) :
    Match w (.pair (.num 9) c) (.pair (.num 9) d)
  | set {c d : Key} {xs ys : List Key} (hc : c = ofList (sort xs)) (hd : d = ofList (sort ys))
    (h : List.Forall₂ (Match w) xs ys) : Match w (.pair (.num 10) c) (.pair (.num 10) d)
  | address {i j g k : Nat} (h : w.pair ⟨i, g⟩ ⟨j, k⟩) :
    Match w (.pair (.num 11) (.pair (.num i) (.num g))) (.pair (.num 11) (.pair (.num j) (.num k)))

/-- Two lists of keys correspond. -/
abbrev Key.MatchAll (w : World) : List Key → List Key → Prop := List.Forall₂ (Key.Match w)

namespace Key.Match

variable {w w' : World}

/-! ### Growth and sides

Keys are nested in lists, so that a fact about corresponding keys is proved by induction on the size,
and the hypothesis is there for the members of a list only. -/

/-- Keys that correspond go on doing so when more does. -/
theorem imp (hs : ∀ x y, w.sym x y → w'.sym x y) (hp : ∀ a b, w.pair a b → w'.pair a b)
    {k l : Key} (h : Key.Match w k l) : Key.Match w' k l := by
  induction hn : sizeOf k using Nat.strongRecOn generalizing k l with
  | _ n ih =>
    have part (x y : Key) (hx : sizeOf x < n) (h : Key.Match w x y) : Key.Match w' x y := ih _ hx h rfl
    subst hn
    cases h with
    | plain h => exact .plain h _
    | symbol h => exact .symbol (hs _ _ h)
    | keyword h => exact .keyword (hs _ _ h)
    | address h => exact .address (hp _ _ h)
    | sequence hc hd h =>
      subst hc
      refine .sequence rfl hd (forall₂_imp_of_mem h fun x hx y _ => part x y ?_)
      have := sizeOf_lt_of_mem hx
      simp only [pair.sizeOf_spec]
      omega
    | set hc hd h =>
      subst hc
      refine .set rfl hd (forall₂_imp_of_mem h fun x hx y _ => part x y ?_)
      have := sizeOf_lt_of_mem_sort hx
      simp only [pair.sizeOf_spec]
      omega
    | map hc hd hk hv =>
      subst hc
      refine .map rfl hd (forall₂_imp_of_mem hk fun x hx y _ => part x y ?_)
        (forall₂_imp_of_mem hv fun x hx y _ => part x y ?_)
      · have := sizeOf_lt_of_mem_entries (.inl hx)
        simp only [pair.sizeOf_spec]
        omega
      · have := sizeOf_lt_of_mem_entries (.inr hx)
        simp only [pair.sizeOf_spec]
        omega

theorem mono {k l : Key} (h : Key.Match w k l) (hw : w ≤ w') : Key.Match w' k l :=
  h.imp (fun _ _ => hw.sym) fun _ _ => hw.pair

/-- Keys that correspond do so from the other side. -/
theorem flip {k l : Key} (h : Key.Match w k l) : Key.Match w.flip l k := by
  induction hn : sizeOf k using Nat.strongRecOn generalizing k l with
  | _ n ih =>
    have part (x y : Key) (hx : sizeOf x < n) (h : Key.Match w x y) : Key.Match w.flip y x :=
      ih _ hx h rfl
    subst hn
    cases h with
    | plain h => exact .plain h _
    | symbol h => exact .symbol h
    | keyword h => exact .keyword h
    | address h => exact .address h
    | sequence hc hd h =>
      subst hc
      refine .sequence hd rfl (forall₂_imp_of_mem h fun x hx y _ => part x y ?_).flip
      have := sizeOf_lt_of_mem hx
      simp only [pair.sizeOf_spec]
      omega
    | set hc hd h =>
      subst hc
      refine .set hd rfl (forall₂_imp_of_mem h fun x hx y _ => part x y ?_).flip
      have := sizeOf_lt_of_mem_sort hx
      simp only [pair.sizeOf_spec]
      omega
    | map hc hd hk hv =>
      subst hc
      refine .map hd rfl (forall₂_imp_of_mem hk fun x hx y _ => part x y ?_).flip
        (forall₂_imp_of_mem hv fun x hx y _ => part x y ?_).flip
      · have := sizeOf_lt_of_mem_entries (.inl hx)
        simp only [pair.sizeOf_spec]
        omega
      · have := sizeOf_lt_of_mem_entries (.inr hx)
        simp only [pair.sizeOf_spec]
        omega

/-! ### One to one -/

/-- Entries of maps correspond if their keys and their values do. -/
def Entry (w : World) (k l : Key) : Prop :=
  ∃ a b c d, k = .pair a b ∧ l = .pair c d ∧ Key.Match w a c ∧ Key.Match w b d

theorem forall₂_entry {xs ys : List (Key × Key)} (hk : Key.MatchAll w (xs.map (·.1)) (ys.map (·.1)))
    (hv : Key.MatchAll w (xs.map (·.2)) (ys.map (·.2))) :
    List.Forall₂ (Entry w) (xs.map fun e => .pair e.1 e.2) (ys.map fun e => .pair e.1 e.2) := by
  induction xs generalizing ys with
  | nil =>
    cases ys with
    | nil => exact .nil
    | cons y ys => cases hk
  | cons x xs ih =>
    cases ys with
    | nil => cases hk
    | cons y ys =>
      obtain ⟨hk, hks⟩ := List.forall₂_cons.1 hk
      obtain ⟨hv, hvs⟩ := List.forall₂_cons.1 hv
      exact .cons ⟨_, _, _, _, rfl, rfl, hk, hv⟩ (ih hks hvs)

/-- **No key corresponds to two.** -/
theorem right_unique (hw : w.Unique) {k l m : Key} (h : Key.Match w k l) (h' : Key.Match w k m) :
    l = m := by
  induction hn : sizeOf k using Nat.strongRecOn generalizing k l m with
  | _ n ih =>
    have part (x y z : Key) (hx : sizeOf x < n) (h : Key.Match w x y) (h' : Key.Match w x z) : y = z :=
      ih _ hx h h' rfl
    subst hn
    cases h with
    | plain h =>
      cases h' with
      | plain _ => rfl
      | _ => omega
    | symbol h =>
      cases h' with
      | plain _ => omega
      | symbol h' => cases hw.sym_right h h'; rfl
    | keyword h =>
      cases h' with
      | plain _ => omega
      | keyword h' => cases hw.sym_right h h'; rfl
    | address h =>
      cases h' with
      | plain _ => omega
      | address h' => cases hw.pair_right h h'; rfl
    | sequence hc hd h =>
      cases h' with
      | plain _ => omega
      | sequence hc' hd' h' =>
        subst hd hd' hc
        rw [← ofList_inj hc'] at h'
        rw [eq_of_forall₂ h h' fun x hx y z => part x y z ?_]
        have := sizeOf_lt_of_mem hx
        simp only [pair.sizeOf_spec]
        omega
    | set hc hd h =>
      cases h' with
      | plain _ => omega
      | set hc' hd' h' =>
        subst hd hd' hc
        have perm := perm_of_forall₂ (perm_of_sort_eq (ofList_inj hc')) h h' fun x hx y z =>
          part x y z ?_
        · rw [sort_eq_of_perm perm]
        · have := sizeOf_lt_of_mem_sort hx
          simp only [pair.sizeOf_spec]
          omega
    | map hc hd hk hv =>
      cases h' with
      | plain _ => omega
      | map hc' hd' hk' hv' =>
        subst hd hd' hc
        have perm := perm_of_forall₂ (perm_of_sort_eq (ofList_inj hc')) (forall₂_entry hk hv)
          (forall₂_entry hk' hv') fun x hx y z => ?_
        · rw [sort_eq_of_perm perm]
        · rintro ⟨a, b, c, d, rfl, rfl, hac, hbd⟩ ⟨a', b', c', d', he, rfl, hac', hbd'⟩
          cases he
          have whole := sizeOf_lt_of_mem_sort hx
          simp only [pair.sizeOf_spec] at whole part
          rw [part _ _ _ (by omega) hac hac', part _ _ _ (by omega) hbd hbd']

/-- No two keys correspond to one. -/
theorem left_unique (hw : w.Unique) {k l m : Key} (h : Key.Match w k m) (h' : Key.Match w l m) :
    k = l :=
  right_unique hw.flip h.flip h'.flip

/-! ### In one session -/

/-- In a session that is compared with itself, keys correspond to themselves. -/
theorem eq (hw : w.isSelf) {k l : Key} (h : Key.Match w k l) : k = l := by
  induction hn : sizeOf k using Nat.strongRecOn generalizing k l with
  | _ n ih =>
    have part (x y : Key) (hx : sizeOf x < n) (h : Key.Match w x y) : x = y := ih _ hx h rfl
    subst hn
    cases h with
    | plain _ => rfl
    | symbol h => cases w.sym_eq hw h; rfl
    | keyword h => cases w.sym_eq hw h; rfl
    | address h => cases w.pair_eq hw h; rfl
    | sequence hc hd h =>
      subst hc hd
      rw [eq_of_forall₂_self h fun x hx y => part x y ?_]
      have := sizeOf_lt_of_mem hx
      simp only [pair.sizeOf_spec]
      omega
    | set hc hd h =>
      subst hc hd
      rw [eq_of_forall₂_self h fun x hx y => part x y ?_]
      have := sizeOf_lt_of_mem_sort hx
      simp only [pair.sizeOf_spec]
      omega
    | map hc hd hk hv =>
      subst hc hd
      have entries := eq_of_forall₂_self (forall₂_entry hk hv) fun x hx y hxy => ?_
      · rw [entries]
      · obtain ⟨a, b, c, d, rfl, rfl, hac, hbd⟩ := hxy
        have whole := sizeOf_lt_of_mem_sort hx
        simp only [pair.sizeOf_spec] at whole part
        rw [part _ _ (by omega) hac, part _ _ (by omega) hbd]

end Key.Match

end TwinLisp
