import TwinLisp.Proofs.Collection.Listing
import TwinLisp.Proofs.Collection.Pairwise
import TwinLisp.Proofs.Conduct.Keeping
import TwinLisp.Proofs.Heap.Depth

/-!
# Keys of what lies on a heap

The key of a value is made of the keys of the data in it, however many references have to be looked through.
It stays what it is as long as that data is there, whatever else happens to the heap.

A heap is *orderly* if what lies in its data is there, if its data is made of older data, and if its maps and
sets have their items under the keys of these.

## Main definitions

* `Object.KeyFrom`: how the key of an object is made of keys.
* `Heap.HasKey`: the key of a value.
* `Heap.Part`: what lies in a value.
* `Heap.Accepts` and `Heap.Orderly`.

## Main statements

* `Heap.HasKey.unique`, `Heap.Orderly.exists_key`: on an orderly heap, every value has exactly one key.
* `Heap.HasKey.transfer`: keys of what is still there are what they were.
* `Heap.Orderly.place`, `Heap.Orderly.set`, `Heap.Orderly.collect`: heaps stay orderly.
-/

namespace TwinLisp

/-! ### How keys are made -/

theorem mapM_eq_ok_iff {α β ε : Type} {f : α → Except ε β} {xs : List α} {ys : List β} :
    xs.mapM f = .ok ys ↔ List.Forall₂ (fun x y => f x = .ok y) xs ys := by
  induction xs generalizing ys with
  | nil => cases ys <;> simp [pure, Except.pure]
  | cons x xs ih =>
    rw [List.mapM_cons]
    cases hx : f x with
    | error e => cases ys <;> simp [bind, Except.bind, hx]
    | ok y =>
      cases hxs : xs.mapM f with
      | error e => cases ys <;> simp [bind, Except.bind, ← ih, hxs, hx]
      | ok zs => cases ys <;> simp [bind, Except.bind, pure, Except.pure, ← ih, hxs, hx]

theorem entry_eq_ok_iff {α β ε : Type} {f : α → Except ε β} {x y : α} {p : β × β} :
    (do return (← f x, ← f y)) = Except.ok p ↔ f x = .ok p.1 ∧ f y = .ok p.2 := by
  cases f x with
  | error e => simp [bind, Except.bind]
  | ok k => cases f y <;> simp [bind, Except.bind, pure, Except.pure, Prod.ext_iff]

namespace Object

/-- The key of the object with address `a`, where `R` relates what lies in it to keys. -/
inductive KeyFrom (R : Value → Key → Prop) (a : Address) : Object → Key → Prop where
  | str (s : String) : KeyFrom R a (.str s) (.ofString s)
  | list {items : List Value} {ks : List Key} (l : Location) (h : List.Forall₂ R items ks) :
    KeyFrom R a (.list items l) (.ofSequence ks)
  | vector {items : List Value} {ks : List Key} (l : Location) (h : List.Forall₂ R items ks) :
    KeyFrom R a (.vector items l) (.ofSequence ks)
  | map {m : OrderedMap} {es : List (Key × Key)}
    (h : List.Forall₂ (fun e p => R e.1 p.1 ∧ R e.2 p.2) m.toList es) : KeyFrom R a (.map m) (.ofMap es)
  | set {s : OrderedSet} {ks : List Key} (h : List.Forall₂ R s.toList ks) :
    KeyFrom R a (.set s) (.ofSet ks)
  | identity {o : Object} (h : o.isIdentity = true) : KeyFrom R a o (.ofAddress a)

variable {R S : Value → Key → Prop} {a : Address} {o : Object} {k : Key}

theorem mem_contents_map {m : OrderedMap} {e : Value × Value} (he : e ∈ m.toList) :
    e.1 ∈ (map m).contents ∧ e.2 ∈ (map m).contents := by
  simp only [contents, List.mem_flatMap]
  exact ⟨⟨e, he, by simp⟩, e, he, by simp⟩

theorem keyFrom_str {s : String} : (str s).KeyFrom R a k ↔ Key.ofString s = k := by
  constructor
  · intro h
    cases h with
    | str => rfl
    | identity e => cases e
  · rintro rfl
    exact .str s

theorem keyFrom_list {items : List Value} {l : Location} :
    (list items l).KeyFrom R a k ↔ ∃ ks, List.Forall₂ R items ks ∧ Key.ofSequence ks = k := by
  constructor
  · intro h
    cases h with
    | list _ h => exact ⟨_, h, rfl⟩
    | identity e => cases e
  · rintro ⟨ks, h, rfl⟩
    exact .list l h

theorem keyFrom_vector {items : List Value} {l : Location} :
    (vector items l).KeyFrom R a k ↔ ∃ ks, List.Forall₂ R items ks ∧ Key.ofSequence ks = k := by
  constructor
  · intro h
    cases h with
    | vector _ h => exact ⟨_, h, rfl⟩
    | identity e => cases e
  · rintro ⟨ks, h, rfl⟩
    exact .vector l h

theorem keyFrom_map {m : OrderedMap} : (map m).KeyFrom R a k ↔
    ∃ es, List.Forall₂ (fun e p => R e.1 p.1 ∧ R e.2 p.2) m.toList es ∧ Key.ofMap es = k := by
  constructor
  · intro h
    cases h with
    | map h => exact ⟨_, h, rfl⟩
    | identity e => cases e
  · rintro ⟨es, h, rfl⟩
    exact .map h

theorem keyFrom_set {s : OrderedSet} :
    (set s).KeyFrom R a k ↔ ∃ ks, List.Forall₂ R s.toList ks ∧ Key.ofSet ks = k := by
  constructor
  · intro h
    cases h with
    | set h => exact ⟨_, h, rfl⟩
    | identity e => cases e
  · rintro ⟨ks, h, rfl⟩
    exact .set h

/-- What is known by its identity has its address for a key. -/
theorem keyFrom_identity (ho : o.isIdentity = true) : o.KeyFrom R a k ↔ Key.ofAddress a = k := by
  constructor
  · intro h
    cases h with
    | identity => rfl
    | _ => cases ho
  · rintro rfl
    exact .identity ho

theorem KeyFrom.imp (h : o.KeyFrom R a k) (hRS : ∀ c ∈ o.contents, ∀ l, R c l → S c l) :
    o.KeyFrom S a k := by
  cases h with
  | str s => exact .str s
  | list l h => exact .list l (forall₂_imp_of_mem h fun c hc k _ => hRS c hc k)
  | vector l h => exact .vector l (forall₂_imp_of_mem h fun c hc k _ => hRS c hc k)
  | map h =>
    refine .map (forall₂_imp_of_mem h fun e he p _ hp => ?_)
    exact ⟨hRS _ (mem_contents_map he).1 _ hp.1, hRS _ (mem_contents_map he).2 _ hp.2⟩
  | set h => exact .set (forall₂_imp_of_mem h fun c hc k _ => hRS c hc k)
  | identity h => exact .identity h

/-- An object has a key if everything that lies in it does. -/
theorem exists_keyFrom (h : ∀ c ∈ o.contents, ∃ l, R c l) : ∃ k, o.KeyFrom R a k := by
  cases o with
  | str s => exact ⟨_, .str s⟩
  | list items l =>
    obtain ⟨ks, hks⟩ := exists_forall₂ h
    exact ⟨_, .list l hks⟩
  | vector items l =>
    obtain ⟨ks, hks⟩ := exists_forall₂ h
    exact ⟨_, .vector l hks⟩
  | map m =>
    have entries : ∀ e ∈ m.toList, ∃ p : Key × Key, R e.1 p.1 ∧ R e.2 p.2 := by
      intro e he
      obtain ⟨k, hk⟩ := h _ (mem_contents_map he).1
      obtain ⟨l, hl⟩ := h _ (mem_contents_map he).2
      exact ⟨(k, l), hk, hl⟩
    obtain ⟨es, hes⟩ := exists_forall₂ entries
    exact ⟨_, .map hes⟩
  | set s =>
    obtain ⟨ks, hks⟩ := exists_forall₂ h
    exact ⟨_, .set hks⟩
  | _ => exact ⟨_, .identity rfl⟩

/-- What is stored under a key: in a map the key of an entry, in a set a member. -/
def stored? : Object → Key → Option Value
  | .map m, k => (m.get? k).map (·.1)
  | .set s, k => s.get? k
  | _, _ => none

theorem mem_contents_of_stored? {v : Value} (hv : o.stored? k = some v) : v ∈ o.contents := by
  cases o with
  | map m =>
    obtain ⟨es, hm⟩ := m.exists_lists
    obtain ⟨e, he, rfl⟩ := Option.map_eq_some_iff.1 hv
    exact (mem_contents_map (hm.mem_toList (hm.get?_eq_some_iff.1 he))).1
  | set s =>
    obtain ⟨vs, hs⟩ := s.exists_lists
    exact hs.mem_toList (hs.get?_eq_some_iff.1 hv)
  | _ => cases hv

/-- Collection follows everything that lies in data. -/
theorem holds_of_mem_contents {v : Value} (hv : v ∈ o.contents) : o.Holds v := by
  cases o with
  | list items l => exact .listItem hv
  | vector items l => exact .vectorItem hv
  | map m =>
    obtain ⟨e, he, hv⟩ := List.mem_flatMap.1 hv
    simp only [List.mem_cons, List.not_mem_nil, or_false] at hv
    rcases hv with rfl | rfl
    · exact .mapKey he
    · exact .mapValue he
  | set s => exact .member hv
  | _ => cases hv

end Object

namespace Heap

variable {h g : Heap} {n m : Nat} {v w : Value} {k l : Key} {a : Address} {o : Object}

theorem keyWithin_of_plain (hv : v.plainKey = .inl k) : h.keyWithin n v = .ok k := by
  cases n <;> rw [keyWithin, hv]

/-- What is known by its contents has to be there. -/
theorem exists_of_keyWithin (hv : v.plainKey = .inr a) (hk : h.keyWithin n v = .ok k) :
    ∃ m o, n = m + 1 ∧ h.get? a = some o := by
  cases n with
  | zero =>
    rw [keyWithin, hv] at hk
    cases hk
  | succ m =>
    cases ho : h.get? a with
    | none => simp [keyWithin, hv, ho] at hk
    | some o => exact ⟨m, o, rfl, rfl⟩

/-- The key of data is made of the keys of what lies in it. -/
theorem keyWithin_iff_keyFrom (hv : v.plainKey = .inr a) (ho : h.get? a = some o) :
    h.keyWithin (n + 1) v = .ok k ↔ o.KeyFrom (fun c l => h.keyWithin n c = .ok l) a k := by
  have mapped {β : Type} {x : Except Address β} {f : β → Key} :
      x.map f = .ok k ↔ ∃ y, x = .ok y ∧ f y = k := by
    cases x <;> simp [Except.map]
  rw [keyWithin]
  simp only [hv, ho]
  cases o with
  | str s => rw [Object.keyFrom_str, Except.ok.injEq]
  | list items l =>
    rw [Object.keyFrom_list]
    simp only [mapped, mapM_eq_ok_iff]
  | vector items l =>
    rw [Object.keyFrom_vector]
    simp only [mapped, mapM_eq_ok_iff]
  | map m =>
    show (m.toList.mapM fun e : Value × Value => do
      return (← h.keyWithin n e.1, ← h.keyWithin n e.2)).map Key.ofMap = _ ↔ _
    rw [Object.keyFrom_map]
    simp only [mapped, mapM_eq_ok_iff, entry_eq_ok_iff]
  | set s =>
    rw [Object.keyFrom_set]
    simp only [mapped, mapM_eq_ok_iff]
  | _ => rw [Object.keyFrom_identity rfl, Except.ok.injEq]

/-! ### What lies in a value -/

/-- The value `w` lies in `v`, or in what lies in it, if the looks do not end in atoms and functions. -/
inductive Part (h : Heap) (v : Value) : Value → Prop where
  | self : Part h v v
  | inside {k : Kind} {a : Address} {o : Object} {c : Value} (hv : Part h v (.ref k a))
    (ho : h.get? a = some o) (hc : c ∈ o.contents) : Part h v c

theorem Part.trans {u : Value} (hu : h.Part u v) (hv : h.Part v w) : h.Part u w := by
  induction hv with
  | self => exact hu
  | inside _ ho hc ih => exact ih.inside ho hc

/-- Nothing lies in a value that is no reference. -/
theorem Part.eq_self (hv : ∀ k a, v ≠ .ref k a) (hw : h.Part v w) : w = v := by
  induction hw with
  | self => rfl
  | inside _ _ _ ih => exact absurd ih.symm (hv _ _)

theorem Part.eq_or_inside {c : Kind} (hw : h.Part (.ref c a) w) (ho : h.get? a = some o) :
    w = .ref c a ∨ ∃ v ∈ o.contents, h.Part v w := by
  induction hw with
  | self => exact .inl rfl
  | inside _ hp hc ih =>
    rcases ih with e | ⟨v, hv, inner⟩
    · cases e
      rw [ho] at hp
      cases hp
      exact .inr ⟨_, hc, .self⟩
    · exact .inr ⟨v, hv, inner.inside hp hc⟩

theorem ref_of_plainKey (hv : v.plainKey = .inr a) : ∃ k, v = .ref k a := by
  cases v with
  | ref k b => cases k <;> cases hv <;> exact ⟨_, rfl⟩
  | _ => cases hv

/-- A key that was found stays what it is, with more fuel and also on another heap, as long as the same data
is there. -/
theorem keyWithin_transfer (hk : h.keyWithin n v = .ok k) (hnm : n ≤ m)
    (kept : ∀ l a o, h.Part v (.ref l a) → h.get? a = some o →
      ∃ o', g.get? a = some o' ∧ o.Stays True o') : g.keyWithin m v = .ok k := by
  induction n generalizing m v k with
  | zero =>
    cases hv : v.plainKey with
    | inl l =>
      rw [keyWithin_of_plain hv] at hk ⊢
      exact hk
    | inr a =>
      obtain ⟨_, _, e, -⟩ := exists_of_keyWithin hv hk
      cases e
  | succ n ih =>
    cases hv : v.plainKey with
    | inl l =>
      rw [keyWithin_of_plain hv] at hk ⊢
      exact hk
    | inr a =>
      obtain ⟨_, o, -, ho⟩ := exists_of_keyWithin hv hk
      obtain ⟨l, rfl⟩ := ref_of_plainKey hv
      obtain ⟨o', ho', stays⟩ := kept l a o .self ho
      obtain ⟨m, rfl⟩ : ∃ m', m = m' + 1 := ⟨m - 1, by omega⟩
      rw [keyWithin_iff_keyFrom hv ho] at hk
      rw [keyWithin_iff_keyFrom hv ho']
      cases stays with
      | same =>
        refine hk.imp fun c hc l hl => ih hl (by omega) fun l b p hp => kept l b p ?_
        exact (Part.self.inside ho hc).trans hp
      | written _ v w =>
        -- The key of an atom does not depend on what it holds.
        cases hk
        exact .identity rfl

/-- The value has the key, however many references have to be looked through. -/
def HasKey (h : Heap) (v : Value) (k : Key) : Prop := ∃ n, h.keyWithin n v = .ok k

/-- The key of a value stays what it is as long as the data in it is there. -/
theorem HasKey.transfer (hk : h.HasKey v k) (kept : ∀ l a o, h.Part v (.ref l a) → h.get? a = some o →
    ∃ o', g.get? a = some o' ∧ o.Stays True o') : g.HasKey v k := by
  obtain ⟨n, hn⟩ := hk
  exact ⟨n, keyWithin_transfer hn (Nat.le_refl n) kept⟩

theorem keyWithin_mono (hk : h.keyWithin n v = .ok k) (hnm : n ≤ m) : h.keyWithin m v = .ok k :=
  keyWithin_transfer hk hnm fun _ _ o _ ho => ⟨o, ho, .same o⟩

/-- No value has two keys. -/
theorem HasKey.unique (hk : h.HasKey v k) (hl : h.HasKey v l) : k = l := by
  obtain ⟨n, hn⟩ := hk
  obtain ⟨m, hm⟩ := hl
  have left := keyWithin_mono hn (Nat.le_max_left n m)
  rw [keyWithin_mono hm (Nat.le_max_right n m)] at left
  exact (Except.ok.inj left).symm

/-! ### Orderly heaps -/

/-- What the value refers to is there and is what the reference says. -/
def Holds (h : Heap) : Value → Prop
  | .ref k a => ∃ o, h.get? a = some o ∧ o.kind = k
  | _ => True

/-- The object fits in with what is on the heap: what lies in it is there, and what it stores under a key has
this key. -/
structure Accepts (h : Heap) (o : Object) : Prop where
  holds : ∀ c ∈ o.contents, h.Holds c
  hasKey : ∀ k v, o.stored? k = some v → h.HasKey v k

/-- All objects fit in with each other, and data is made of older data. -/
structure Orderly (h : Heap) : Prop extends h.Sound where
  accepts {a : Address} {o : Object} : h.get? a = some o → h.Accepts o
  founded : h.Founded fun a => h.isLive a = true

namespace Orderly

variable (hh : h.Orderly)
include hh

theorem closed : h.Closed fun a => h.isLive a = true where
  isLive := id
  contents _ ho _ _ hc := by
    obtain ⟨p, hp, -⟩ := (hh.accepts ho).holds _ hc
    exact Option.isSome_of_eq_some hp

theorem within (hv : h.Holds v) : h.Within (h.slots.size + 1) v := by
  refine hh.founded.within hh.closed v ?_
  rintro k a rfl
  obtain ⟨o, ho, -⟩ := hv
  exact Option.isSome_of_eq_some ho

theorem exists_keyWithin (hv : h.Holds v) (hn : h.Within n v) : ∃ k, h.keyWithin n v = .ok k := by
  induction n generalizing v with
  | zero =>
    obtain ⟨k, hk⟩ := hn
    exact ⟨k, keyWithin_of_plain hk⟩
  | succ n ih =>
    cases hp : v.plainKey with
    | inl k => exact ⟨k, keyWithin_of_plain hp⟩
    | inr a =>
      obtain ⟨k, rfl⟩ := ref_of_plainKey hp
      obtain ⟨o, ho, -⟩ := hv
      have parts : ∀ c ∈ o.contents, ∃ l, h.keyWithin n c = .ok l :=
        fun c hc => ih ((hh.accepts ho).holds c hc) (hn rfl ho c hc)
      obtain ⟨l, hl⟩ := Object.exists_keyFrom parts
      exact ⟨l, (keyWithin_iff_keyFrom hp ho).2 hl⟩

/-- **Every value that is there has a key.** -/
theorem exists_key (hv : h.Holds v) : ∃ k, h.key v = .ok k := hh.exists_keyWithin hv (hh.within hv)

/-- The key that is computed is the one that the value has. -/
theorem key_eq (hv : h.Holds v) (hk : h.HasKey v k) : h.key v = .ok k := by
  obtain ⟨l, hl⟩ := hh.exists_key hv
  have same : l = k := HasKey.unique ⟨_, hl⟩ hk
  rw [hl, same]

end Orderly

/-! ### What fits in -/

section Accepts

variable {m : OrderedMap} {s : OrderedSet} {es : Listing (Value × Value)} {vs : Listing Value} {u : Value}

theorem Holds.transfer (hv : h.Holds v) (kept : ∀ l a p, h.Part v (.ref l a) → h.get? a = some p →
    ∃ p', g.get? a = some p' ∧ p.Stays True p') : g.Holds v := by
  cases v with
  | ref l a =>
    obtain ⟨p, hp, hk⟩ := hv
    obtain ⟨p', hp', stays⟩ := kept l a p .self hp
    refine ⟨p', hp', ?_⟩
    cases stays with
    | same => exact hk
    | written => exact hk
  | _ => trivial

/-- An object goes on fitting in as long as the data in it is there. -/
theorem Accepts.transfer (ho : h.Accepts o) (kept : ∀ c ∈ o.contents, ∀ l a p, h.Part c (.ref l a) →
    h.get? a = some p → ∃ p', g.get? a = some p' ∧ p.Stays True p') : g.Accepts o where
  holds c hc := (ho.holds c hc).transfer (kept c hc)
  hasKey k v hv := (ho.hasKey k v hv).transfer (kept v (Object.mem_contents_of_stored? hv))

theorem accepts_of_contents (hc : o.contents = []) (hs : ∀ k, o.stored? k = none) : h.Accepts o where
  holds c hm := by
    rw [hc] at hm
    cases hm
  hasKey k v hv := by
    rw [hs] at hv
    cases hv

/-- A map fits in if all its entries do. -/
theorem accepts_map_iff (hm : m.Lists es) : h.Accepts (.map m) ↔
    ∀ e ∈ es, h.Holds e.2.1 ∧ h.Holds e.2.2 ∧ h.HasKey e.2.1 e.1 := by
  have stored (k : Key) (v : Value) :
      (Object.map m).stored? k = some v ↔ ∃ w, (k, (v, w)) ∈ es := by
    simp [Object.stored?, hm.get?_eq_some_iff]
  constructor
  · rintro ⟨holds, hasKey⟩ ⟨k, v, w⟩ he
    have parts := Object.mem_contents_map (hm.mem_toList he)
    exact ⟨holds _ parts.1, holds _ parts.2, hasKey k v ((stored k v).2 ⟨w, he⟩)⟩
  · intro fit
    refine ⟨fun c hc => ?_, fun k v hv => ?_⟩
    · simp only [Object.contents, List.mem_flatMap, hm.toList_eq, List.mem_map] at hc
      obtain ⟨_, ⟨e, he, rfl⟩, hc⟩ := hc
      simp only [List.mem_cons, List.not_mem_nil, or_false] at hc
      rcases hc with rfl | rfl
      · exact (fit e he).1
      · exact (fit e he).2.1
    · obtain ⟨w, he⟩ := (stored k v).1 hv
      exact (fit _ he).2.2

/-- A set fits in if all its members do. -/
theorem accepts_set_iff (hs : s.Lists vs) : h.Accepts (.set s) ↔
    ∀ e ∈ vs, h.Holds e.2 ∧ h.HasKey e.2 e.1 := by
  constructor
  · rintro ⟨holds, hasKey⟩ ⟨k, v⟩ he
    exact ⟨holds v (hs.mem_toList he), hasKey k v (hs.get?_eq_some_iff.2 he)⟩
  · intro fit
    refine ⟨fun c hc => ?_, fun k v hv => (fit _ (hs.get?_eq_some_iff.1 hv)).2⟩
    have hc : c ∈ s.toList := hc
    rw [hs.toList_eq, List.mem_map] at hc
    obtain ⟨e, he, rfl⟩ := hc
    exact (fit e he).1

theorem accepts_list {items : List Value} (holds : ∀ c ∈ items, h.Holds c) (l : Location) :
    h.Accepts (.list items l) where
  holds := holds
  hasKey _ _ hv := by cases hv

theorem accepts_vector {items : List Value} (holds : ∀ c ∈ items, h.Holds c) (l : Location) :
    h.Accepts (.vector items l) where
  holds := holds
  hasKey _ _ hv := by cases hv

theorem accepts_map_empty : h.Accepts (.map .empty) :=
  (accepts_map_iff .empty).2 fun e he => by cases he

theorem accepts_set_empty : h.Accepts (.set .empty) :=
  (accepts_set_iff .empty).2 fun e he => by cases he

/-- An entry is put into a map under the key of its key. -/
theorem Accepts.insert (ha : h.Accepts (.map m)) (hv : h.Holds v) (hw : h.Holds w)
    (hk : h.HasKey v k) : h.Accepts (.map (m.insert k (v, w))) := by
  obtain ⟨es, hm⟩ := m.exists_lists
  refine (accepts_map_iff (hm.insert k (v, w))).2 fun e he => ?_
  rcases Listing.mem_put he with rfl | he
  · exact ⟨hv, hw, hk⟩
  · exact (accepts_map_iff hm).1 ha e he

theorem Accepts.erase (ha : h.Accepts (.map m)) (k : Key) : h.Accepts (.map (m.erase k)) := by
  obtain ⟨es, hm⟩ := m.exists_lists
  refine (accepts_map_iff (hm.erase k)).2 fun e he => ?_
  exact (accepts_map_iff hm).1 ha e (List.mem_filter.1 he).1

theorem Accepts.eraseMember (ha : h.Accepts (.set s)) (k : Key) : h.Accepts (.set (s.erase k)) := by
  obtain ⟨vs, hs⟩ := s.exists_lists
  refine (accepts_set_iff (hs.erase k)).2 fun e he => ?_
  exact (accepts_set_iff hs).1 ha e (List.mem_filter.1 he).1

/-- A member is put into a set under its key. -/
theorem Accepts.insertIfNew (ha : h.Accepts (.set s)) (hv : h.Holds v) (hk : h.HasKey v k) :
    h.Accepts (.set (s.insertIfNew k v)) := by
  obtain ⟨vs, hs⟩ := s.exists_lists
  refine (accepts_set_iff (hs.insertIfNew k v)).2 fun e he => ?_
  rcases Listing.mem_add he with rfl | he
  · exact ⟨hv, hk⟩
  · exact (accepts_set_iff hs).1 ha e he

end Accepts

/-! ### Heaps stay orderly -/

theorem Orderly.congr (hh : h.Orderly) (slots : g.slots = h.slots) (free : g.free = h.free) : g.Orderly where
  nodup := free ▸ hh.nodup
  empty_of_mem hi := slots ▸ hh.empty_of_mem (free ▸ hi)
  accepts {a o} ho := by
    rw [get?_congr slots] at ho
    refine (hh.accepts ho).transfer fun c _ l b p _ hp => ⟨p, ?_, .same p⟩
    rw [get?_congr slots, hp]
  founded := by
    obtain ⟨born, now, hnow, hborn⟩ := hh.founded
    simp only [isLive, Founded, get?_congr slots] at hnow hborn ⊢
    exact ⟨born, now, hnow, hborn⟩

theorem orderly_empty (capacity : Option Nat) : (empty capacity).Orderly where
  toSound := sound_empty capacity
  accepts ho := by simp at ho
  founded := ⟨fun _ => 0, 0, by simp [isLive], by simp⟩

/-- A new object that fits in. -/
theorem Orderly.place (hh : h.Orderly) (ho : h.Accepts o) : (h.place o).1.Orderly where
  toSound := hh.toSound.place o
  accepts {a p} hp := by
    have kept (l : Kind) (b : Address) (q : Object) (hq : h.get? b = some q) :
        ∃ q', (h.place o).1.get? b = some q' ∧ q.Stays True q' :=
      ⟨q, by rw [get?_place_of_known o hh.toSound (known_of_get? hq), hq], .same q⟩
    rw [get?_place h o hh.toSound] at hp
    split at hp
    · cases hp
      exact ho.transfer fun _ _ l b q _ => kept l b q
    · exact (hh.accepts hp).transfer fun _ _ l b q _ => kept l b q
  founded := by
    refine (hh.founded.place hh.toSound hh.closed o fun hc => ?_).imp fun a ha => ?_
    · obtain ⟨p, hp, -⟩ := ho.holds _ hc
      exact Option.isSome_of_eq_some hp
    · obtain ⟨p, hp⟩ := Option.isSome_iff_exists.1 ha
      rw [get?_place h o hh.toSound] at hp
      split at hp
      · next e => exact .inr e
      · exact .inl (Option.isSome_of_eq_some hp)

/-- An atom is written. -/
theorem Orderly.set (hh : h.Orderly) (ha : h.get? a = some (.atom v)) (w : Value) :
    (h.set a (.atom w)).Orderly where
  toSound := hh.toSound.set a _
  accepts {b p} hp := by
    rw [get?_set] at hp
    split at hp
    · obtain ⟨_, -, rfl⟩ := Option.map_eq_some_iff.1 hp
      exact accepts_of_contents rfl fun _ => rfl
    · refine (hh.accepts hp).transfer fun _ _ l c q _ hq => ?_
      rw [get?_set]
      by_cases e : c = a
      · subst e
        rw [ha] at hq
        cases hq
        exact ⟨.atom w, by simp [ha], .written trivial v w⟩
      · exact ⟨q, by rw [if_neg e, hq], .same q⟩
  founded := by
    refine (hh.founded.set a (o := .atom w) rfl).imp fun b hb => ?_
    have hb : ((h.set a (.atom w)).get? b).isSome = true := hb
    rw [get?_set] at hb
    split at hb
    · simpa [isLive] using hb
    · exact hb

variable {scopes : Scopes} {roots : List Node}

theorem Reaches.part (hr : h.Reaches scopes roots (.object a)) (ho : h.get? a = some o)
    {c : Value} (hc : c ∈ o.contents) {l : Kind} {b : Address} (hp : h.Part c (.ref l b)) :
    h.Reaches scopes roots (.object b) := by
  generalize hw : Value.ref l b = w at hp
  induction hp generalizing l b with
  | self =>
    subst hw
    exact hr.step (.part ho (Object.holds_of_mem_contents hc))
  | inside _ ho' hc' ih =>
    subst hw
    exact (ih rfl).step (.part ho' (Object.holds_of_mem_contents hc'))

/-- A collection leaves an object with all the data in it, or takes it away. -/
theorem Orderly.collect (hh : h.Orderly) (scopes : Scopes) (roots : List Node) :
    (h.collect scopes roots).1.Orderly where
  toSound := hh.toSound.sweep _
  accepts {a o} ho := by
    obtain ⟨ho, hr⟩ := (get?_collect ..).1 ho
    refine (hh.accepts ho).transfer fun c hc l b p hp hb => ⟨p, ?_, .same p⟩
    exact (get?_collect ..).2 ⟨hb, hr.part ho hc hp⟩
  founded := by
    obtain ⟨born, now, hnow, hborn⟩ := hh.founded
    refine ⟨born, now, fun a ha => hnow a (isLive_collect.1 ha).1, fun {a o} ha ho => ?_⟩
    exact hborn (isLive_collect.1 ha).1 ((get?_collect ..).1 ho).1

end Heap

end TwinLisp
