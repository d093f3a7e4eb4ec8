import TwinLisp.Proofs.Correspondence.Session

/-!
# Keys and equality of values that correspond

Values that correspond have keys that correspond. If also data corresponds one to one, two values are
equal on one side exactly if their partners are on the other.

## Main statements

* `Heap.Match.key` and `Heap.Match.equal`.
-/

namespace TwinLisp

/-! ### Computations that may fail -/

/-- Computations that succeed on all items succeed on the list. -/
theorem mapM_match {α β γ δ ε : Type} {f : α → Except ε γ} {g : β → Except ε δ} {P : α → β → Prop}
    {Q : γ → δ → Prop} {xs : List α} {ys : List β} (h : List.Forall₂ P xs ys)
    (hfg : ∀ x ∈ xs, ∀ y ∈ ys, P x y → ∃ c d, f x = .ok c ∧ g y = .ok d ∧ Q c d) :
    ∃ cs ds, xs.mapM f = .ok cs ∧ ys.mapM g = .ok ds ∧ List.Forall₂ Q cs ds := by
  induction h with
  | nil => exact ⟨[], [], rfl, rfl, .nil⟩
  | cons h _ ih =>
    obtain ⟨c, d, hf, hg, hcd⟩ := hfg _ (List.mem_cons_self ..) _ (List.mem_cons_self ..) h
    obtain ⟨cs, ds, hfs, hgs, hcds⟩ := ih fun x hx y hy =>
      hfg x (List.mem_cons_of_mem _ hx) y (List.mem_cons_of_mem _ hy)
    refine ⟨c :: cs, d :: ds, ?_, ?_, .cons hcd hcds⟩
    · simp [List.mapM_cons, hf, hfs, bind, Except.bind, pure, Except.pure]
    · simp [List.mapM_cons, hg, hgs, bind, Except.bind, pure, Except.pure]

namespace Heap

variable {S : Setting} {w : World} {h k : Heap}

/-- Two tests succeed with the same answer. -/
def SameAnswer (x y : Except Address Bool) : Prop := ∃ b, x = .ok b ∧ y = .ok b

theorem SameAnswer.ok (b : Bool) : SameAnswer (.ok b) (.ok b) := ⟨b, rfl, rfl⟩

theorem SameAnswer.bind {x y : Except Address Bool} {f g : Bool → Except Address Bool}
    (hxy : SameAnswer x y) (hfg : ∀ b, SameAnswer (f b) (g b)) :
    SameAnswer (x >>= f) (y >>= g) := by
  obtain ⟨b, rfl, rfl⟩ := hxy
  exact hfg b

theorem allItems_match {α β : Type} {P : α → β → Prop} {p : α → Except Address Bool}
    {q : β → Except Address Bool} {xs : List α} {ys : List β} (h : List.Forall₂ P xs ys)
    (hpq : ∀ x ∈ xs, ∀ y ∈ ys, P x y → SameAnswer (p x) (q y)) :
    SameAnswer (allItems p xs) (allItems q ys) := by
  induction h with
  | nil => exact .ok true
  | cons h _ ih =>
    refine .bind (hpq _ (List.mem_cons_self ..) _ (List.mem_cons_self ..) h) fun b => ?_
    cases b with
    | true =>
      exact ih fun x hx y hy => hpq x (List.mem_cons_of_mem _ hx) y (List.mem_cons_of_mem _ hy)
    | false => exact .ok false

theorem allPairs_match {P : Value → Value → Prop} {p q : Value → Value → Except Address Bool}
    {xs xs' ys ys' : List Value} (h : List.Forall₂ P xs xs') (h' : List.Forall₂ P ys ys')
    (hpq : ∀ x ∈ xs, ∀ x' ∈ xs', ∀ y y', P x x' → P y y' → SameAnswer (p x y) (q x' y')) :
    SameAnswer (allPairs p xs ys) (allPairs q xs' ys') := by
  induction h generalizing ys ys' with
  | nil => cases h' <;> exact .ok _
  | cons h _ ih =>
    cases h' with
    | nil => exact .ok false
    | cons k ks =>
      refine .bind (hpq _ (List.mem_cons_self ..) _ (List.mem_cons_self ..) _ _ h k) fun b => ?_
      cases b with
      | true =>
        exact ih ks fun x hx x' hx' =>
          hpq x (List.mem_cons_of_mem _ hx) x' (List.mem_cons_of_mem _ hx')
      | false => exact .ok false

namespace Match

/-! ### Keys -/

/-- Functions, atoms and host objects correspond one to one. -/
theorem pair_of_kind (hm : h.Match S w k) {l : Kind} {a b : Address} (hl : w.live l a b)
    (hk : l = .function ∨ l = .atom ∨ l = .host) : w.pair a b := by
  obtain ⟨o, -, -, -, rfl, -, hp⟩ := hm.objects hl
  refine hp (.inr ?_)
  cases o <;> first | rfl | simp [Object.kind] at hk

/-- Either both values are known by their own keys, or both refer to data. -/
theorem plainKey (hm : h.Match S w k) {v v' : Value} (hv : v.Match w v') :
    (∃ x y, v.plainKey = .inl x ∧ v'.plainKey = .inl y ∧ Key.Match w x y) ∨
    ∃ l a b, v = .ref l a ∧ v' = .ref l b ∧ w.live l a b ∧ v.plainKey = .inr a ∧
      v'.plainKey = .inr b := by
  cases hv with
  | symbol hx => exact .inl ⟨_, _, rfl, rfl, .symbol hx⟩
  | keyword hx => exact .inl ⟨_, _, rfl, rfl, .keyword hx⟩
  | ref l hl =>
    cases l with
    | function => exact .inl ⟨_, _, rfl, rfl, .address (hm.pair_of_kind hl (by decide))⟩
    | atom => exact .inl ⟨_, _, rfl, rfl, .address (hm.pair_of_kind hl (by decide))⟩
    | host => exact .inl ⟨_, _, rfl, rfl, .address (hm.pair_of_kind hl (by decide))⟩
    | _ => exact .inr ⟨_, _, _, rfl, rfl, hl, rfl, rfl⟩
  | _ => exact .inl ⟨_, _, rfl, rfl, .plain (by decide) _⟩

/-- Values that correspond have keys that do. -/
theorem keyWithin (hm : h.Match S w k) {n m : Nat} {v v' : Value} (hv : v.Match w v')
    (hn : h.Within n v) (hn' : k.Within m v') :
    ∃ x y, h.keyWithin n v = .ok x ∧ k.keyWithin m v' = .ok y ∧ Key.Match w x y := by
  induction n generalizing m v v' with
  | zero =>
    obtain ⟨x, hx⟩ := hn
    rcases hm.plainKey hv with ⟨x, y, hx, hy, hxy⟩ | ⟨l, a, b, -, -, -, hy, -⟩
    · refine ⟨x, y, by rw [Heap.keyWithin, hx], ?_, hxy⟩
      cases m <;> rw [Heap.keyWithin, hy]
    · rw [hx] at hy
      cases hy
  | succ n ih =>
    rcases hm.plainKey hv with ⟨x, y, hx, hy, hxy⟩ | ⟨l, a, b, rfl, rfl, hl, hx, hy⟩
    · refine ⟨x, y, by rw [Heap.keyWithin, hx], ?_, hxy⟩
      cases m <;> rw [Heap.keyWithin, hy]
    cases m with
    | zero =>
      obtain ⟨z, hz⟩ := hn'
      rw [hy] at hz
      cases hz
    | succ m =>
      obtain ⟨o, o', ho, ho', hk, hoo, -⟩ := hm.objects hl
      have part {c c' : Value} (hc : c ∈ o.contents) (hc' : c' ∈ o'.contents) (hcc : c.Match w c') :
          ∃ x y, h.keyWithin n c = .ok x ∧ k.keyWithin m c' = .ok y ∧ Key.Match w x y :=
        ih hcc (hn rfl ho c hc) (hn' rfl ho' c' hc')
      rw [Heap.keyWithin, Heap.keyWithin, hx, hy]
      simp only [ho, ho']
      cases hoo with
      | str s => exact ⟨_, _, rfl, rfl, .plain (.inr rfl) _⟩
      | list _ hs =>
        obtain ⟨xs, ys, hxs, hys, hxy⟩ := mapM_match hs fun c hc c' hc' => part hc hc'
        exact ⟨.ofSequence xs, .ofSequence ys, by simp only [hxs]; rfl, by simp only [hys]; rfl,
          .sequence rfl rfl hxy⟩
      | vector _ hs =>
        obtain ⟨xs, ys, hxs, hys, hxy⟩ := mapM_match hs fun c hc c' hc' => part hc hc'
        exact ⟨.ofSequence xs, .ofSequence ys, by simp only [hxs]; rfl, by simp only [hys]; rfl,
          .sequence rfl rfl hxy⟩
      | map hs =>
        have mem {e : Value × Value} {m : OrderedMap} (he : e ∈ m.toList) :
            e.1 ∈ (Object.map m).contents ∧ e.2 ∈ (Object.map m).contents :=
          ⟨List.mem_flatMap.2 ⟨e, he, by simp⟩, List.mem_flatMap.2 ⟨e, he, by simp⟩⟩
        obtain ⟨xs, ys, hxs, hys, hxy⟩ := mapM_match (Q := fun x y : Key × Key =>
            Key.Match w x.1 y.1 ∧ Key.Match w x.2 y.2) hs.toList
          (f := fun e => do return (← h.keyWithin n e.1, ← h.keyWithin n e.2))
          (g := fun e => do return (← k.keyWithin m e.1, ← k.keyWithin m e.2))
          fun e he e' he' hee => by
            obtain ⟨x₁, y₁, hx₁, hy₁, h₁⟩ := part (mem he).1 (mem he').1 hee.1
            obtain ⟨x₂, y₂, hx₂, hy₂, h₂⟩ := part (mem he).2 (mem he').2 hee.2
            exact ⟨(x₁, x₂), (y₁, y₂), by rw [hx₁, hx₂]; rfl, by rw [hy₁, hy₂]; rfl, h₁, h₂⟩
        refine ⟨.ofMap xs, .ofMap ys, by simp only [hxs]; rfl, by simp only [hys]; rfl, .map rfl rfl ?_ ?_⟩
        · simpa only [List.forall₂_map_left_iff, List.forall₂_map_right_iff] using
            hxy.imp fun _ _ h => h.1
        · simpa only [List.forall₂_map_left_iff, List.forall₂_map_right_iff] using
            hxy.imp fun _ _ h => h.2
      | set hs =>
        obtain ⟨xs, ys, hxs, hys, hxy⟩ := mapM_match hs.toList fun c hc c' hc' => part hc hc'
        exact ⟨.ofSet xs, .ofSet ys, by simp only [hxs]; rfl, by simp only [hys]; rfl, .set rfl rfl hxy⟩
      | function _ => subst hk; cases hx
      | atom _ => subst hk; cases hx
      | host _ => subst hk; cases hx

theorem within (hm : h.Match S w k) {v v' : Value} (hv : v.Match w v') :
    h.Within (h.slots.size + 1) v ∧ k.Within (k.slots.size + 1) v' := by
  refine ⟨hm.foundedLeft.within hm.closed_left v ?_, hm.foundedRight.within hm.closed_right v' ?_⟩
  · rintro l a rfl
    cases hv with
    | ref _ hl => exact ⟨_, _, hl⟩
  · rintro l a rfl
    cases hv with
    | ref _ hl => exact ⟨_, _, hl⟩

/-- Data that corresponds is equally deep. -/
theorem within_left (hm : h.Match S w k) {n : Nat} {v v' : Value} (hv : v.Match w v')
    (hn : k.Within n v') : h.Within n v := by
  induction n generalizing v v' with
  | zero =>
    obtain ⟨x, hx⟩ := hn
    rcases hm.plainKey hv with ⟨x, y, hx, -⟩ | ⟨l, a, b, -, -, -, -, hy⟩
    · exact ⟨x, hx⟩
    · rw [hx] at hy
      cases hy
  | succ n ih =>
    rintro l a o rfl ho c hc
    cases hv with
    | ref _ hl =>
      obtain ⟨p, p', hp, hp', -, hpp, -⟩ := hm.objects hl
      rw [ho] at hp
      cases hp
      obtain ⟨c', hc', hcc⟩ := exists_of_forall₂ hpp.contents hc
      exact ih hcc (hn rfl hp' c' hc')

/-- **Values that correspond have keys that do.** -/
theorem key (hm : h.Match S w k) {v v' : Value} (hv : v.Match w v') :
    ∃ x y, h.key v = .ok x ∧ k.key v' = .ok y ∧ Key.Match w x y :=
  hm.keyWithin hv (hm.within hv).1 (hm.within hv).2

/-! ### Equality -/

/-- Where data corresponds one to one, too, so do all objects. -/
theorem address_eq_iff (hm : h.Match S w k) (hu : w.Unique) (hS : S.exact) {l l' : Kind}
    {a b a' b' : Address} (ha : w.live l a a') (hb : w.live l' b b') : a = b ↔ a' = b' := by
  have pair {l : Kind} {a b : Address} (hl : w.live l a b) : w.pair a b :=
    have ⟨_, _, _, _, _, _, hp⟩ := hm.objects hl
    hp (.inl hS)
  constructor
  · rintro rfl
    exact hu.pair_right (pair ha) (pair hb)
  · rintro rfl
    exact hu.pair_left (pair ha) (pair hb)

theorem identical_eq (hm : h.Match S w k) (hu : w.Unique) (hS : S.exact) {v v' u u' : Value}
    (hv : v.Match w v') (hu' : u.Match w u') : v.identical u = v'.identical u' := by
  have name {x y x' y' : Symbol} (hx : w.sym x x') (hy : w.sym y y') : (x == y) = (x' == y') := by
    rw [Bool.eq_iff_iff, beq_iff_eq, beq_iff_eq]
    exact ⟨fun e => hu.sym_right hx (e ▸ hy), fun e => hu.sym_left hx (e ▸ hy)⟩
  have address {l l' : Kind} {a b a' b' : Address} (ha : w.live l a a') (hb : w.live l' b b') :
      (a == b) = (a' == b') := by
    rw [Bool.eq_iff_iff, beq_iff_eq, beq_iff_eq]
    exact hm.address_eq_iff hu hS ha hb
  cases hv with
  | symbol hx => cases hu' with
    | symbol hy => exact name hx hy
    | _ => rfl
  | keyword hx => cases hu' with
    | keyword hy => exact name hx hy
    | _ => rfl
  | ref l ha => cases hu' with
    | ref l' hb => exact address ha hb
    | _ => rfl
  | _ => cases hu' <;> rfl

/-- Entries that correspond are found in maps that correspond on both sides or on neither, as far as what
they hold is equal. -/
theorem equalEntry (hm : h.Match S w k) (hu : w.Unique) {equal equal' : Value → Value → Except Address Bool}
    {n n' : OrderedMap} (hn : n.Match w (Entry.Match w) n') {e e' : Value × Value}
    (hee : Entry.Match w e e')
    (part : ∀ d d', Value.Match w d d' → SameAnswer (equal e.2 d) (equal' e'.2 d')) :
    SameAnswer
      (do match n.value? (← h.key e.1) with
        | some other => equal e.2 other
        | none => return false)
      (do match n'.value? (← k.key e'.1) with
        | some other => equal' e'.2 other
        | none => return false) := by
  obtain ⟨x, y, hx, hy, hxy⟩ := hm.key hee.1
  rw [hx, hy]
  have found := hn.value? hu hxy
  simp only [bind, Except.bind]
  generalize n.value? x = z at found ⊢
  generalize n'.value? y = z' at found ⊢
  cases found with
  | some hd => exact part _ _ hd
  | none => exact .ok false

/-- Objects that correspond are equal on one side if they are on the other, as far as their parts
are. -/
theorem equalObjects (hm : h.Match S w k) (hu : w.Unique) {equal equal' : Value → Value → Except Address Bool}
    {l l' : Kind} {a b a' b' : Address} (ha : w.live l a a') (hb : w.live l' b b')
    (he : ∀ {o o' : Object}, h.get? a = some o → k.get? a' = some o' → ∀ c ∈ o.contents, ∀ c' ∈ o'.contents,
      ∀ d d', c.Match w c' → d.Match w d' → SameAnswer (equal c d) (equal' c' d')) :
    SameAnswer (h.equalObjects equal a b) (k.equalObjects equal' a' b') := by
  obtain ⟨o, o', ho, ho', -, hoo, -⟩ := hm.objects ha
  obtain ⟨p, p', hp, hp', -, hpp, -⟩ := hm.objects hb
  have part := he ho ho'
  unfold Heap.equalObjects Heap.find
  rw [ho, ho', hp, hp']
  have items {xs xs' ys ys' : List Value} (hx : Value.MatchAll w xs xs') (hy : Value.MatchAll w ys ys')
      (hc : xs = o.contents) (hc' : xs' = o'.contents) :
      SameAnswer (if xs.length == ys.length then allPairs equal xs ys else .ok false)
        (if xs'.length == ys'.length then allPairs equal' xs' ys' else .ok false) := by
    rw [hx.length_eq, hy.length_eq]
    split
    · exact allPairs_match hx hy fun c hcm c' hcm' => part c (hc ▸ hcm) c' (hc' ▸ hcm')
    · exact .ok false
  cases hoo with
  | str s => cases hpp <;> exact .ok _
  | list _ hx => cases hpp with
    | list _ hy => exact items hx hy rfl rfl
    | vector _ hy => exact items hx hy rfl rfl
    | _ => exact .ok _
  | vector _ hx => cases hpp with
    | list _ hy => exact items hx hy rfl rfl
    | vector _ hy => exact items hx hy rfl rfl
    | _ => exact .ok _
  | @map m m' hx => cases hpp with
    | @map n n' hy =>
      change SameAnswer (if m.size != n.size then .ok false else allItems _ m.toList)
        (if m'.size != n'.size then .ok false else allItems _ m'.toList)
      rw [hx.size_eq, hy.size_eq]
      split
      · exact .ok false
      · refine allItems_match hx.toList fun e he e' he' hee => hm.equalEntry hu hy hee fun d d' hd => ?_
        exact part _ (List.mem_flatMap.2 ⟨e, he, by simp⟩) _ (List.mem_flatMap.2 ⟨e', he', by simp⟩)
          _ _ hee.2 hd
    | _ => exact .ok _
  | @set m m' hx => cases hpp with
    | @set n n' hy =>
      have member {v v' : Value} (hv : v.Match w v') :
          SameAnswer (do return n.contains (← h.key v)) (do return n'.contains (← k.key v')) := by
        obtain ⟨x, y, hx, hy', hxy⟩ := hm.key hv
        rw [hx, hy']
        exact ⟨_, rfl, congrArg _ (hy.contains_eq hu hxy).symm⟩
      change SameAnswer (if m.size != n.size then .ok false else allItems _ m.toList)
        (if m'.size != n'.size then .ok false else allItems _ m'.toList)
      rw [hx.size_eq, hy.size_eq]
      split
      · exact .ok false
      · exact allItems_match hx.toList fun _ _ _ _ => member
    | _ => exact .ok _
  | _ => cases hpp <;> exact .ok _

/-- What is compared by its parts is equal on one side if it is on the other, as far as the parts are. -/
theorem equalParts (hm : h.Match S w k) (hu : w.Unique) {l l' : Kind} {a b a' b' : Address}
    (ha : w.live l a a') (hb : w.live l' b b') (hl : (Value.ref l a).plainKey = .inr a)
    (hl' : (Value.ref l a').plainKey = .inr a') :
    ∀ n m, h.Within n (.ref l a) → k.Within m (.ref l a') →
      (∀ i < n, ∀ j {c c' d d' : Value}, c.Match w c' → d.Match w d' → h.Within i c → k.Within j c' →
        SameAnswer (h.equalWithin i c d) (k.equalWithin j c' d')) →
      SameAnswer
        (match n with | 0 => .error a | i + 1 => h.equalObjects (h.equalWithin i) a b)
        (match m with | 0 => .error a' | j + 1 => k.equalObjects (k.equalWithin j) a' b') := by
  intro n m hn hn' ih
  cases n with
  | zero =>
    obtain ⟨_, hx⟩ := hn
    rw [hl] at hx
    cases hx
  | succ i => cases m with
    | zero =>
      obtain ⟨_, hx⟩ := hn'
      rw [hl'] at hx
      cases hx
    | succ j =>
      exact hm.equalObjects hu ha hb fun ho ho' c hc c' hc' d d' hcc hdd =>
        ih i i.lt_succ_self j hcc hdd (hn rfl ho c hc) (hn' rfl ho' c' hc')

/-- Values that correspond are equal on one side if they are on the other. -/
theorem equalWithin (hm : h.Match S w k) (hu : w.Unique) (hS : S.exact) {n m : Nat}
    {v v' u u' : Value} (hv : v.Match w v') (huu : u.Match w u') (hn : h.Within n v)
    (hn' : k.Within m v') : SameAnswer (h.equalWithin n v u) (k.equalWithin m v' u') := by
  induction n using Nat.strongRecOn generalizing m v v' u u' with
  | _ n ih =>
    have identical := hm.identical_eq hu hS hv huu
    cases hv with
    | float x => cases huu <;> simp only [Heap.equalWithin] <;> exact .ok _
    | @ref l a a' ha => cases huu with
      | @ref l' b b' hb =>
        have address : SameAnswer (.ok (a == b)) (.ok (a' == b')) := ⟨_, rfl, congrArg _ identical.symm⟩
        have data (hl : (Value.ref l a).plainKey = .inr a) (hl' : (Value.ref l a').plainKey = .inr a') :=
          hm.equalParts hu ha hb hl hl' n m hn hn' fun i hi _ _ _ _ _ => ih i hi
        have shortcut {x y : Except Address Bool} (hxy : SameAnswer x y) :
            SameAnswer (if a == b then .ok true else x) (if a' == b' then .ok true else y) := by
          rw [show (a == b) = (a' == b') from identical]
          split
          · exact .ok true
          · exact hxy
        cases l <;> cases l' <;> unfold Heap.equalWithin <;>
          first | exact .ok false | exact address | exact data rfl rfl | exact shortcut (data rfl rfl)
      | _ => simp only [Heap.equalWithin]; exact .ok _
    | _ => simp only [Heap.equalWithin, identical]; exact .ok _

/-- **Values that correspond are equal on one side if they are on the other.** -/
theorem equal (hm : h.Match S w k) (hu : w.Unique) (hS : S.exact) {v v' u u' : Value}
    (hv : v.Match w v') (huu : u.Match w u') : SameAnswer (h.equal v u) (k.equal v' u') :=
  hm.equalWithin hu hS hv huu (hm.within hv).1 (hm.within hv).2

end Match

end Heap

end TwinLisp
