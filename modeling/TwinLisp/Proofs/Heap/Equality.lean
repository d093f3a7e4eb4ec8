import TwinLisp.Proofs.Collection.Key
import TwinLisp.Proofs.Heap.Keys
import TwinLisp.Proofs.Number.Floats

/-!
# Equal values have equal keys

On an orderly heap, the comparison of two values always comes to an answer, and the answer is whether their
keys are the same, unless not-a-number is among the data. The comparison walks through both values side by
side and looks members of maps and sets up; keys are made of each value on its own and sorted. The two meet
since maps and sets have their items under the keys of these.

## Main definitions

* `Heap.Decides`: a comparison comes to an answer, and the answer is right.
* `Heap.Numeric`: no not-a-number lies in a value.
* `Object.Rearranges`: two maps or sets differ in their order only.

## Main statements

* `Heap.equalWithin_decides`: comparing values is comparing keys.
* `Heap.Orderly.key_eq_of_rearranges`: the order of maps and sets does not matter.
-/

namespace TwinLisp

/-! ### Keys of numbers, names and texts -/

namespace Key

/-- The number of the kind of value that has the key. -/
def tag : Key → Nat
  | .pair (.num t) _ => t
  | _ => 0

theorem tagged_inj {t : Nat} {x y : Key} : tagged t x = tagged t y ↔ x = y := by
  simp [tagged]

theorem ofBool_inj {b c : Bool} : ofBool b = ofBool c ↔ b = c := by
  cases b <;> cases c <;> decide

theorem ofSymbol_inj {x y : Symbol} : ofSymbol x = ofSymbol y ↔ x = y := by
  cases x
  cases y
  simp [ofSymbol, tagged]

theorem ofKeyword_inj {x y : Symbol} : ofKeyword x = ofKeyword y ↔ x = y := by
  cases x
  cases y
  simp [ofKeyword, tagged]

theorem ofInt_inj {m n : Int64} : ofInt m = ofInt n ↔ m = n := by
  cases m
  cases n
  simp [ofInt, tagged, UInt64.toNat_inj]

theorem ofChar_inj {c d : Char} : ofChar c = ofChar d ↔ c = d := by
  rw [ofChar, ofChar, tagged_inj, num.injEq, Char.toNat_inj]

theorem ofString_inj {s t : String} : ofString s = ofString t ↔ s = t := by
  refine ⟨fun h => ?_, congrArg _⟩
  have chars := ofList_inj (tagged_inj.1 h)
  have inj : Function.Injective fun c : Char => Key.num c.toNat :=
    fun c d e => Char.toNat_inj.1 (num.inj e)
  exact String.toList_inj.1 (inj.list_map chars)

theorem ofAddress_inj {a b : Address} : ofAddress a = ofAddress b ↔ a = b := by
  cases a
  cases b
  simp [ofAddress, tagged]

theorem ofSequence_inj {ks ls : List Key} : ofSequence ks = ofSequence ls ↔ ks = ls :=
  ⟨fun h => ofList_inj (tagged_inj.1 h), congrArg _⟩

/-- Two sets have the same key if they have the same members, in whatever order. -/
theorem ofSet_eq_iff {ks ls : List Key} : ofSet ks = ofSet ls ↔ ks.Perm ls := by
  refine ⟨fun h => perm_of_sort_eq (ofList_inj (tagged_inj.1 h)), fun h => ?_⟩
  rw [ofSet, ofSet, sort_eq_of_perm h]

/-- Two maps have the same key if they have the same entries, in whatever order. -/
theorem ofMap_eq_iff {es fs : List (Key × Key)} : ofMap es = ofMap fs ↔ es.Perm fs := by
  have inj : Function.Injective fun e : Key × Key => Key.pair e.1 e.2 := fun e f h =>
    Prod.ext (pair.inj h).1 (pair.inj h).2
  refine ⟨fun h => ?_, fun h => ?_⟩
  · exact (List.map_perm_map_iff inj).1 (perm_of_sort_eq (ofList_inj (tagged_inj.1 h)))
  · rw [ofMap, ofMap, sort_eq_of_perm (h.map _)]

end Key

/-- The number of the kind of value. -/
def Value.tag : Value → Nat
  | .nil => 0
  | .bool _ => 1
  | .int _ => 2
  | .float _ => 3
  | .char _ => 4
  | .symbol _ => 5
  | .keyword _ => 6
  | .ref .str _ => 7
  | .ref .list _ | .ref .vector _ => 8
  | .ref .map _ => 9
  | .ref .set _ => 10
  | .ref .function _ | .ref .atom _ | .ref .host _ => 11

/-- The object is a list or a vector of the items. -/
inductive Object.IsSequence (items : List Value) : Object → Prop where
  | list (l : Location) : IsSequence items (.list items l)
  | vector (l : Location) : IsSequence items (.vector items l)

theorem Object.IsSequence.contents_eq {items : List Value} {o : Object} (h : o.IsSequence items) :
    o.contents = items := by
  cases h <;> rfl

theorem Object.KeyFrom.of_sequence {R : Value → Key → Prop} {a : Address} {o : Object} {k : Key}
    {items : List Value} (hk : o.KeyFrom R a k) (ho : o.IsSequence items) :
    ∃ ks, List.Forall₂ R items ks ∧ .ofSequence ks = k := by
  cases ho with
  | list => exact keyFrom_list.1 hk
  | vector => exact keyFrom_vector.1 hk

/-- The same entries or members, in whatever order. -/
inductive Object.Rearranges : Object → Object → Prop where
  | map {m m' : OrderedMap} (h : m.toList.Perm m'.toList) : Rearranges (.map m) (.map m')
  | set {s t : OrderedSet} (h : s.toList.Perm t.toList) : Rearranges (.set s) (.set t)

theorem Object.Rearranges.mem_contents_iff {o p : Object} {v : Value} (h : o.Rearranges p) :
    v ∈ o.contents ↔ v ∈ p.contents := by
  cases h with
  | map h => exact (h.flatMap_right _).mem_iff
  | set h => exact h.mem_iff

theorem Object.Rearranges.key_eq {R : Value → Key → Prop} {a b : Address} {o p : Object} {k l : Key}
    (h : o.Rearranges p) (functional : ∀ v k l, R v k → R v l → k = l) (hk : o.KeyFrom R a k)
    (hl : p.KeyFrom R b l) : k = l := by
  cases h with
  | map h =>
    obtain ⟨ps, hps, rfl⟩ := keyFrom_map.1 hk
    obtain ⟨qs, hqs, rfl⟩ := keyFrom_map.1 hl
    refine Key.ofMap_eq_iff.2 (perm_of_forall₂ h hps hqs fun e _ p q hp hq => ?_)
    exact Prod.ext (functional _ _ _ hp.1 hq.1) (functional _ _ _ hp.2 hq.2)
  | set h =>
    obtain ⟨ks, hks, rfl⟩ := keyFrom_set.1 hk
    obtain ⟨ls, hls, rfl⟩ := keyFrom_set.1 hl
    exact Key.ofSet_eq_iff.2 (perm_of_forall₂ h hks hls fun v _ => functional v)

namespace Heap

variable {h : Heap} {n : Nat} {v w : Value} {k l : Key} {a b : Address} {o p : Object}

/-! ### Answers -/

/-- The comparison comes to an answer, which is whether `p` holds. -/
def Decides (x : Except Address Bool) (p : Prop) : Prop := ∃ e, x = .ok e ∧ (e = true ↔ p)

theorem Decides.of_iff {e : Bool} {p : Prop} (h : e = true ↔ p) : Decides (.ok e) p := ⟨e, rfl, h⟩

theorem Decides.congr {x : Except Address Bool} {p q : Prop} (h : Decides x p) (hpq : p ↔ q) :
    Decides x q := by
  obtain ⟨e, hx, he⟩ := h
  exact ⟨e, hx, he.trans hpq⟩

/-- What is decided first may leave nothing to decide. -/
theorem Decides.bind {x y : Except Address Bool} {p q : Prop} (hx : Decides x p) (hy : p → Decides y q) :
    Decides (do if ← x then y else return false) (p ∧ q) := by
  obtain ⟨e, rfl, he⟩ := hx
  cases e with
  | true =>
    have hp := he.1 rfl
    exact (hy hp).congr (and_iff_right hp).symm
  | false =>
    have hp : ¬ p := fun hp => by cases he.2 hp
    exact .of_iff (by simp [hp])

/-- Every item is looked for among others. -/
theorem allItems_decides {α β : Type} {x : α → Except Address Bool} {R : α → β → Prop} {as : List α}
    {bs cs : List β} (hab : List.Forall₂ R as bs) (h : ∀ a ∈ as, ∀ b, R a b → Decides (x a) (b ∈ cs)) :
    Decides (allItems x as) (bs ⊆ cs) := by
  induction hab with
  | nil => exact .of_iff (by simp)
  | cons hab _ ih =>
    rw [allItems]
    refine (Decides.bind (h _ (List.mem_cons_self ..) _ hab) fun _ => ?_).congr List.cons_subset.symm
    exact ih fun a ha => h a (List.mem_cons_of_mem _ ha)

/-- Items that are all among others, and are no more and no fewer, are the same in some order. -/
theorem Decides.perm {β : Type} {x : Except Address Bool} {bs cs : List β} {m n : Nat}
    (hx : Decides x (bs ⊆ cs)) (nodup : bs.Nodup) (hm : m = bs.length) (hn : n = cs.length) :
    Decides (if m != n then .ok false else x) (bs.Perm cs) := by
  subst hm hn
  by_cases same : bs.length = cs.length
  · rw [if_neg (by simpa using same)]
    refine hx.congr ⟨fun sub => ?_, List.Perm.subset⟩
    exact (List.subperm_of_subset nodup sub).perm_of_length_le same.ge
  · rw [if_pos (by simpa using same)]
    exact .of_iff (iff_of_false (by simp) fun perm => same perm.length_eq)

/-- Items are compared in pairs. -/
theorem allPairs_decides {x : Value → Value → Except Address Bool} {R : Value → Key → Prop}
    {vs ws : List Value} {ks ls : List Key} (hv : List.Forall₂ R vs ks) (hw : List.Forall₂ R ws ls)
    (h : ∀ v ∈ vs, ∀ w ∈ ws, ∀ k l, R v k → R w l → Decides (x v w) (k = l)) :
    Decides (allPairs x vs ws) (ks = ls) := by
  induction hv generalizing ws ls with
  | nil => cases hw <;> exact .of_iff (by simp)
  | @cons v k vs ks hk hks ih =>
    cases hw with
    | nil => exact .of_iff (by simp)
    | @cons w l ws ls hl hls =>
      rw [allPairs]
      have first := h v (List.mem_cons_self ..) w (List.mem_cons_self ..) k l hk hl
      refine (Decides.bind first fun _ => ?_).congr List.cons_eq_cons.symm
      exact ih hls fun v hv w hw => h v (List.mem_cons_of_mem _ hv) w (List.mem_cons_of_mem _ hw)

/-! ### Values of different kinds -/

theorem tag_eq_of_keyWithin (hv : h.Holds v) (hk : h.keyWithin n v = .ok k) : k.tag = v.tag := by
  cases hp : v.plainKey with
  | inl l =>
    rw [keyWithin_of_plain hp] at hk
    cases hk
    cases v with
    | ref c a => cases c <;> cases hp <;> rfl
    | _ => cases hp; rfl
  | inr a =>
    obtain ⟨m, o, rfl, ho⟩ := exists_of_keyWithin hp hk
    obtain ⟨c, rfl⟩ := ref_of_plainKey hp
    obtain ⟨o', ho', rfl⟩ := hv
    rw [ho] at ho'
    cases ho'
    rw [keyWithin_iff_keyFrom hp ho] at hk
    cases hk with
    | identity e => cases o <;> cases e <;> cases hp
    | _ => rfl

/-- Values of different kinds are not equal. -/
theorem equalWithin_of_tag_ne (ht : v.tag ≠ w.tag) : h.equalWithin n v w = .ok false := by
  cases v with
  | ref c a =>
    cases w with
    | ref d b => cases c <;> cases d <;> first | exact absurd rfl ht | (cases n <;> rfl)
    | _ => cases n <;> rfl
  | _ => cases w <;> first | exact absurd rfl ht | (cases n <;> rfl)

/-! ### Values that are known by themselves -/

/-- No not-a-number lies in the value. -/
def Numeric (h : Heap) (v : Value) : Prop := ∀ x, h.Part v (.float x) → x.eq x = true

theorem Numeric.inside {c : Kind} (hv : h.Numeric (.ref c a)) (ho : h.get? a = some o)
    (hw : w ∈ o.contents) : h.Numeric w :=
  fun x hx => hv x ((Part.self.inside ho hw).trans hx)

theorem equalWithin_identity {c d : Kind} (hv : h.Holds (.ref c a)) (hw : h.Holds (.ref d b))
    (hp : (Value.ref c a).plainKey = .inl k) (hq : (Value.ref d b).plainKey = .inl l) :
    Decides (h.equalWithin n (.ref c a) (.ref d b)) (k = l) := by
  have keys : k = l ↔ a = b := by
    have hk : k = .ofAddress a := by cases c <;> cases hp <;> rfl
    have hl : l = .ofAddress b := by cases d <;> cases hq <;> rfl
    rw [hk, hl, Key.ofAddress_inj]
  by_cases e : c = d
  · have compared : h.equalWithin n (.ref c a) (.ref d b) = .ok (a == b) := by
      subst e
      cases c <;> cases hp <;> cases n <;> rfl
    rw [compared]
    exact .of_iff (by rw [keys, beq_iff_eq])
  · have compared : h.equalWithin n (.ref c a) (.ref d b) = .ok false := by
      cases c <;> cases hp <;> cases d <;> cases hq <;> first | exact absurd rfl e | (cases n <;> rfl)
    rw [compared]
    refine .of_iff (iff_of_false (by simp) fun same => e ?_)
    -- One address does not hold two kinds of objects.
    obtain ⟨o, ho, rfl⟩ := hv
    obtain ⟨p, hp, rfl⟩ := hw
    rw [keys.1 same, hp] at ho
    cases ho
    rfl

theorem equalWithin_plain (hv : h.Holds v) (hw : h.Holds w) (nv : h.Numeric v) (nw : h.Numeric w)
    (ht : v.tag = w.tag) (hp : v.plainKey = .inl k) (hq : w.plainKey = .inl l) :
    Decides (h.equalWithin n v w) (k = l) := by
  cases v with
  | ref c a =>
    cases w with
    | ref d b => exact equalWithin_identity hv hw hp hq
    | _ => cases c <;> cases hp <;> cases ht
  | float x =>
    cases w with
    | float y =>
      cases hp
      cases hq
      have compared : h.equalWithin n (.float x) (.float y) = .ok (x.eq y) := by cases n <;> rfl
      rw [compared]
      exact .of_iff (Key.ofFloat_eq_iff (nv x .self) (nw y .self)).symm
    | ref d b => cases d <;> cases hq <;> cases ht
    | _ => cases ht
  | nil | bool x | int x | char x | symbol x | keyword x =>
    cases w with
    | ref d b => cases d <;> cases hq <;> cases ht
    | _ =>
      first
      | cases ht
        done
      | cases hp
        cases hq
        refine ⟨Value.identical _ _, by cases n <;> rfl, ?_⟩
        simp [Value.identical, Key.ofBool_inj, Key.ofInt_inj, Key.ofChar_inj, Key.ofSymbol_inj,
          Key.ofKeyword_inj]

/-! ### Lists and vectors -/

theorem sequences_decide {xs ys : List Value} (ho : h.get? a = some o) (hp : h.get? b = some p)
    (xo : o.IsSequence xs) (yp : p.IsSequence ys)
    (parts : ∀ x ∈ o.contents, ∀ y ∈ p.contents, ∀ k l, h.keyWithin n x = .ok k →
      h.keyWithin n y = .ok l → Decides (h.equalWithin n x y) (k = l))
    (hk : o.KeyFrom (fun c l => h.keyWithin n c = .ok l) a k)
    (hl : p.KeyFrom (fun c l => h.keyWithin n c = .ok l) b l) :
    Decides (h.equalObjects (h.equalWithin n) a b) (k = l) := by
  obtain ⟨ks, hks, rfl⟩ := hk.of_sequence xo
  obtain ⟨ls, hls, rfl⟩ := hl.of_sequence yp
  have compared : h.equalObjects (h.equalWithin n) a b =
      if xs.length == ys.length then allPairs (h.equalWithin n) xs ys else .ok false := by
    cases xo <;> cases yp <;> simp only [equalObjects, find, ho, hp] <;> rfl
  rw [compared, Key.ofSequence_inj]
  split
  · rw [xo.contents_eq, yp.contents_eq] at parts
    exact allPairs_decides hks hls parts
  · next ne =>
    refine .of_iff (iff_of_false (by simp) fun same => ne ?_)
    rw [beq_iff_eq, hks.length_eq, hls.length_eq, same]

/-! ### Sets -/

section Sets

variable {s t : OrderedSet} {vs ws : Listing Value} {ks ls : List Key}

/-- The keys under which a set has its members are the keys of these. -/
theorem Accepts.keys_eq (hs : h.Accepts (.set s)) (listed : s.Lists vs)
    (hk : List.Forall₂ (fun v k => h.keyWithin n v = .ok k) s.toList ks) : ks = vs.map (·.1) := by
  have own : List.Forall₂ (fun v k => h.HasKey v k) s.toList (vs.map (·.1)) := by
    rw [listed.toList_eq, List.forall₂_map_left_iff, List.forall₂_map_right_iff]
    exact List.forall₂_same.2 fun e he => ((accepts_set_iff listed).1 hs e he).2
  have found : List.Forall₂ (fun v k => h.HasKey v k) s.toList ks := hk.imp fun v k hv => ⟨n, hv⟩
  exact eq_of_forall₂ found own fun v _ k l hk hl => hk.unique hl

theorem sets_decide (hh : h.Orderly) (ho : h.get? a = some (.set s)) (hp : h.get? b = some (.set t))
    (hk : (Object.set s).KeyFrom (fun c l => h.keyWithin n c = .ok l) a k)
    (hl : (Object.set t).KeyFrom (fun c l => h.keyWithin n c = .ok l) b l) :
    Decides (h.equalObjects (h.equalWithin n) a b) (k = l) := by
  obtain ⟨vs, hs⟩ := s.exists_lists
  obtain ⟨ws, ht⟩ := t.exists_lists
  obtain ⟨ks, keys, rfl⟩ := Object.keyFrom_set.1 hk
  obtain ⟨ls, keys', rfl⟩ := Object.keyFrom_set.1 hl
  have own : ks = vs.map (·.1) := (hh.accepts ho).keys_eq hs keys
  have own' : ls = ws.map (·.1) := (hh.accepts hp).keys_eq ht keys'
  have compared : h.equalObjects (h.equalWithin n) a b =
      if s.size != t.size then .ok false
      else allItems (fun v => do return t.contains (← h.key v)) s.toList := by
    simp only [equalObjects, find, ho, hp]
    rfl
  rw [compared, Key.ofSet_eq_iff]
  refine Decides.perm (allItems_decides keys fun v hv k hk => ?_) (own ▸ hs.nodup_keys)
    (by rw [hs.size_eq, own, List.length_map]) (by rw [ht.size_eq, own', List.length_map])
  have key : h.key v = .ok k := hh.key_eq ((hh.accepts ho).holds v hv) ⟨n, hk⟩
  rw [key]
  exact .of_iff (by rw [ht.contains_eq, own', decide_eq_true_iff])

end Sets

/-! ### Maps -/

section Maps

variable {m m' : OrderedMap} {es fs : Listing (Value × Value)} {ps qs : List (Key × Key)}

/-- The keys under which a map has its entries are the keys of their keys. -/
theorem Accepts.entries (hm : h.Accepts (.map m)) (listed : m.Lists es)
    (hk : List.Forall₂ (fun e p => h.keyWithin n e.1 = .ok p.1 ∧ h.keyWithin n e.2 = .ok p.2) m.toList ps) :
    List.Forall₂ (fun e p => e.1 = p.1 ∧ h.keyWithin n e.2.2 = .ok p.2) es ps := by
  rw [listed.toList_eq, List.forall₂_map_left_iff] at hk
  refine forall₂_imp_of_mem hk fun e he p _ hp => ⟨?_, hp.2⟩
  exact ((accepts_map_iff listed).1 hm e he).2.2.unique ⟨n, hp.1⟩

theorem nodup_of_entries {R : Key × Value × Value → Key × Key → Prop} (listed : m.Lists es)
    (h : List.Forall₂ R es ps) (hR : ∀ e p, R e p → e.1 = p.1) : (ps.map (·.1)).Nodup := by
  rw [← map_eq_of_forall₂ (f := (·.1)) (g := (·.1)) h fun e _ p _ => hR e p]
  exact listed.nodup_keys

/-- Whether a map has a value under the key of a key, and one that is equal. -/
def equalEntry (h : Heap) (equal : Value → Value → Except Address Bool) (m : OrderedMap)
    (e : Value × Value) : Except Address Bool := do
  match m.value? (← h.key e.1) with
  | some other => equal e.2 other
  | none => return false

theorem equalObjects_map {equal : Value → Value → Except Address Bool} (ho : h.get? a = some (.map m))
    (hp : h.get? b = some (.map m')) : h.equalObjects equal a b =
      if m.size != m'.size then .ok false else allItems (h.equalEntry equal m') m.toList := by
  simp only [equalObjects, find, ho, hp]
  rfl

theorem equalEntry_decides {e : Value × Value} {p : Key × Key} (listed : m.Lists es)
    (entries : List.Forall₂ (fun e p => e.1 = p.1 ∧ h.keyWithin n e.2.2 = .ok p.2) es qs)
    (hk : h.key e.1 = .ok p.1) (parts : ∀ f ∈ m.toList, ∀ l, h.keyWithin n f.2 = .ok l →
      Decides (h.equalWithin n e.2 f.2) (p.2 = l)) :
    Decides (h.equalEntry (h.equalWithin n) m e) (p ∈ qs) := by
  have looked : h.equalEntry (h.equalWithin n) m e =
      ((m.get? p.1).map fun f => h.equalWithin n e.2 f.2).getD (.ok false) := by
    rw [equalEntry, hk]
    show (match m.value? p.1 with
      | some other => h.equalWithin n e.2 other
      | none => .ok false) = _
    rw [OrderedMap.value?]
    cases m.get? p.1 <;> rfl
  rw [looked]
  cases there : m.get? p.1 with
  | none =>
    refine .of_iff (iff_of_false (by simp) fun hp => ?_)
    obtain ⟨f, hf, same, -⟩ := exists_of_forall₂_right entries hp
    rw [← same, listed.get?_eq_some_iff.2 hf] at there
    cases there
  | some f =>
    have hf := listed.get?_eq_some_iff.1 there
    obtain ⟨q, hq, same, hv⟩ := exists_of_forall₂ entries hf
    refine (parts f (listed.mem_toList hf) q.2 hv).congr ⟨fun e => ?_, fun hp => ?_⟩
    · rw [Prod.ext same e]
      exact hq
    · -- No two entries have one key.
      have nodup := nodup_of_entries listed entries fun _ _ => And.left
      rw [List.inj_on_of_nodup_map nodup hp hq same]

theorem maps_decide (hh : h.Orderly) (ho : h.get? a = some (.map m)) (hp : h.get? b = some (.map m'))
    (parts : ∀ x ∈ (Object.map m).contents, ∀ y ∈ (Object.map m').contents, ∀ k l,
      h.keyWithin n x = .ok k → h.keyWithin n y = .ok l → Decides (h.equalWithin n x y) (k = l))
    (hk : (Object.map m).KeyFrom (fun c l => h.keyWithin n c = .ok l) a k)
    (hl : (Object.map m').KeyFrom (fun c l => h.keyWithin n c = .ok l) b l) :
    Decides (h.equalObjects (h.equalWithin n) a b) (k = l) := by
  obtain ⟨es, hm⟩ := m.exists_lists
  obtain ⟨fs, hm'⟩ := m'.exists_lists
  obtain ⟨ps, keys, rfl⟩ := Object.keyFrom_map.1 hk
  obtain ⟨qs, keys', rfl⟩ := Object.keyFrom_map.1 hl
  have entries := (hh.accepts ho).entries hm keys
  have entries' := (hh.accepts hp).entries hm' keys'
  have nodup := nodup_of_entries hm entries fun _ _ => And.left
  rw [equalObjects_map ho hp, Key.ofMap_eq_iff]
  refine Decides.perm (allItems_decides keys fun e he p hk => ?_) nodup.of_map
    (by rw [hm.size_eq, entries.length_eq]) (by rw [hm'.size_eq, entries'.length_eq])
  have inside := Object.mem_contents_map he
  refine equalEntry_decides hm' entries' (hh.key_eq ((hh.accepts ho).holds _ inside.1) ⟨n, hk.1⟩) ?_
  intro f hf l hl
  exact parts _ inside.2 _ (Object.mem_contents_map hf).2 _ _ hk.2 hl

end Maps

/-! ### All values -/

/-- A value is known by its contents if one of the same kind is. -/
theorem plainKey_of_tag_eq (ht : v.tag = w.tag) (hp : v.plainKey = .inl k) :
    ∃ l, w.plainKey = .inl l := by
  cases v with
  | ref c a =>
    cases w with
    | ref d b => cases c <;> cases hp <;> cases d <;> first | exact ⟨_, rfl⟩ | cases ht
    | _ => cases c <;> cases hp <;> cases ht
  | _ =>
    cases w with
    | ref d b => cases d <;> first | exact ⟨_, rfl⟩ | cases ht
    | _ => exact ⟨_, rfl⟩

theorem decides_of_tag_ne (hv : h.Holds v) (hw : h.Holds w) (hk : h.keyWithin n v = .ok k)
    (hl : h.keyWithin n w = .ok l) (ht : v.tag ≠ w.tag) : Decides (h.equalWithin n v w) (k = l) := by
  rw [equalWithin_of_tag_ne ht]
  refine .of_iff (iff_of_false (by simp) fun same => ht ?_)
  rw [← tag_eq_of_keyWithin hv hk, ← tag_eq_of_keyWithin hw hl, same]

theorem decides_of_plain (hv : h.Holds v) (hw : h.Holds w) (nv : h.Numeric v) (nw : h.Numeric w)
    (hk : h.keyWithin n v = .ok k) (hl : h.keyWithin n w = .ok l) {k' : Key} (hp : v.plainKey = .inl k') :
    Decides (h.equalWithin n v w) (k = l) := by
  by_cases ht : v.tag = w.tag
  · obtain ⟨l', hq⟩ := plainKey_of_tag_eq ht hp
    rw [keyWithin_of_plain hp] at hk
    rw [keyWithin_of_plain hq] at hl
    cases hk
    cases hl
    exact equalWithin_plain hv hw nv nw ht hp hq
  · exact decides_of_tag_ne hv hw hk hl ht

/-- Lists and vectors with one address are not looked into. -/
theorem sequences_decide_succ {xs ys : List Value} (hv : h.get? a = some o) (hw : h.get? b = some p)
    (xo : o.IsSequence xs) (yp : p.IsSequence ys)
    (parts : ∀ x ∈ o.contents, ∀ y ∈ p.contents, ∀ k l, h.keyWithin n x = .ok k →
      h.keyWithin n y = .ok l → Decides (h.equalWithin n x y) (k = l))
    (hk : h.keyWithin (n + 1) (.ref o.kind a) = .ok k) (hl : h.keyWithin (n + 1) (.ref p.kind b) = .ok l) :
    Decides (h.equalWithin (n + 1) (.ref o.kind a) (.ref p.kind b)) (k = l) := by
  have data {o : Object} {xs : List Value} {a : Address} (xo : o.IsSequence xs) :
      (Value.ref o.kind a).plainKey = .inr a := by
    cases xo <;> rfl
  have compared : h.equalWithin (n + 1) (.ref o.kind a) (.ref p.kind b) =
      if a == b then .ok true else h.equalObjects (h.equalWithin n) a b := by
    cases xo <;> cases yp <;> rfl
  rw [compared]
  split
  · next same =>
    obtain rfl := beq_iff_eq.1 same
    rw [hv] at hw
    cases hw
    rw [hk] at hl
    cases hl
    exact .of_iff (by simp)
  · exact sequences_decide hv hw xo yp parts ((keyWithin_iff_keyFrom (data xo) hv).1 hk)
      ((keyWithin_iff_keyFrom (data yp) hw).1 hl)

/-- **Comparing values is comparing keys**, unless not-a-number is among the data. -/
theorem equalWithin_decides (hh : h.Orderly) (hv : h.Holds v) (hw : h.Holds w) (nv : h.Numeric v)
    (nw : h.Numeric w) (hk : h.keyWithin n v = .ok k) (hl : h.keyWithin n w = .ok l) :
    Decides (h.equalWithin n v w) (k = l) := by
  -- The depth bounds the comparison and the making of both keys, so one induction goes through all three.
  induction n generalizing v w k l with
  | zero =>
    cases hp : v.plainKey with
    | inl k' => exact decides_of_plain hv hw nv nw hk hl hp
    | inr a =>
      obtain ⟨_, _, e, -⟩ := exists_of_keyWithin hp hk
      cases e
  | succ n ih =>
    by_cases ht : v.tag = w.tag
    swap
    · exact decides_of_tag_ne hv hw hk hl ht
    cases hp : v.plainKey with
    | inl k' => exact decides_of_plain hv hw nv nw hk hl hp
    | inr a =>
    cases hq : w.plainKey with
    | inl l' =>
      obtain ⟨k', hp'⟩ := plainKey_of_tag_eq ht.symm hq
      rw [hp] at hp'
      cases hp'
    | inr b =>
    obtain ⟨_, rfl⟩ := ref_of_plainKey hp
    obtain ⟨_, rfl⟩ := ref_of_plainKey hq
    obtain ⟨o, ho, rfl⟩ := hv
    obtain ⟨p, hp', rfl⟩ := hw
    have made := (keyWithin_iff_keyFrom hp ho).1 hk
    have made' := (keyWithin_iff_keyFrom hq hp').1 hl
    have parts : ∀ x ∈ o.contents, ∀ y ∈ p.contents, ∀ k l, h.keyWithin n x = .ok k →
        h.keyWithin n y = .ok l → Decides (h.equalWithin n x y) (k = l) :=
      fun x hx y hy k l => ih ((hh.accepts ho).holds x hx) ((hh.accepts hp').holds y hy)
        (nv.inside ho hx) (nw.inside hp' hy)
    -- What is left are two strings, two lists or vectors, two maps, or two sets.
    cases o with
    | str s =>
      cases p with
      | str t =>
        have compared : h.equalWithin (n + 1) (.ref .str a) (.ref .str b) = .ok (s == t) := by
          show h.equalObjects _ a b = _
          simp only [equalObjects, find, ho, hp']
          rfl
        show Decides (h.equalWithin (n + 1) (.ref .str a) (.ref .str b)) _
        rw [compared, ← Object.keyFrom_str.1 made, ← Object.keyFrom_str.1 made', Key.ofString_inj]
        exact .of_iff beq_iff_eq
      | _ => cases ht
    | list xs l' =>
      cases p with
      | list ys l'' => exact sequences_decide_succ ho hp' (.list _) (.list _) parts hk hl
      | vector ys l'' => exact sequences_decide_succ ho hp' (.list _) (.vector _) parts hk hl
      | _ => cases ht
    | vector xs l' =>
      cases p with
      | list ys l'' => exact sequences_decide_succ ho hp' (.vector _) (.list _) parts hk hl
      | vector ys l'' => exact sequences_decide_succ ho hp' (.vector _) (.vector _) parts hk hl
      | _ => cases ht
    | map m =>
      cases p with
      | map m' => exact maps_decide hh ho hp' parts made made'
      | _ => cases ht
    | set s =>
      cases p with
      | set t => exact sets_decide hh ho hp' made made'
      | _ => cases ht
    | _ => cases hp

/-- The value is there, and no not-a-number lies in it. -/
structure Comparable (h : Heap) (v : Value) : Prop where
  holds : h.Holds v
  numeric : h.Numeric v

/-- The order of entries and of members does not matter to what lies in a value. -/
theorem Comparable.rearranged (hv : h.Comparable (.ref o.kind a)) (ho : h.get? a = some o)
    (hp : h.get? b = some p) (same : o.Rearranges p) : h.Comparable (.ref p.kind b) where
  holds := ⟨p, hp, rfl⟩
  numeric x hx := by
    rcases hx.eq_or_inside hp with e | ⟨c, hc, hx⟩
    · cases e
    · exact hv.numeric.inside ho (same.mem_contents_iff.2 hc) x hx

namespace Orderly

variable {u : Value} (hh : h.Orderly)
include hh

/-- Values have keys, and they are equal if these are the same. -/
theorem equal_iff (hv : h.Comparable v) (hw : h.Comparable w) :
    ∃ k l e, h.key v = .ok k ∧ h.key w = .ok l ∧ h.equal v w = .ok e ∧ (e = true ↔ k = l) := by
  obtain ⟨k, hk⟩ := hh.exists_key hv.holds
  obtain ⟨l, hl⟩ := hh.exists_key hw.holds
  obtain ⟨e, he, answer⟩ := equalWithin_decides hh hv.holds hw.holds hv.numeric hw.numeric hk hl
  exact ⟨k, l, e, hk, hl, he, answer⟩

theorem equal_iff_key_eq (hv : h.Comparable v) (hw : h.Comparable w) :
    h.equal v w = .ok true ↔ h.key v = h.key w := by
  obtain ⟨k, l, e, hk, hl, he, answer⟩ := hh.equal_iff hv hw
  rw [he, hk, hl, Except.ok.injEq, Except.ok.injEq]
  exact answer

theorem equal_refl (hv : h.Comparable v) : h.equal v v = .ok true := (hh.equal_iff_key_eq hv hv).2 rfl

/-- Values with the same key are interchangeable. -/
theorem equal_congr (hu : h.Comparable u) (hv : h.Comparable v) (hw : h.Comparable w)
    (same : h.key u = h.key v) : h.equal u w = h.equal v w := by
  obtain ⟨k, l, e, hk, hl, he, answer⟩ := hh.equal_iff hu hw
  obtain ⟨k', l', e', hk', hl', he', answer'⟩ := hh.equal_iff hv hw
  rw [hk, hk', Except.ok.injEq] at same
  rw [hl, Except.ok.injEq] at hl'
  subst same hl'
  rw [he, he', Bool.eq_iff_iff.2 (answer.trans answer'.symm)]

theorem equal_symm (hv : h.Comparable v) (hw : h.Comparable w) : h.equal v w = h.equal w v := by
  obtain ⟨k, l, e, hk, hl, he, answer⟩ := hh.equal_iff hv hw
  obtain ⟨l', k', e', hl', hk', he', answer'⟩ := hh.equal_iff hw hv
  rw [hk, Except.ok.injEq] at hk'
  rw [hl, Except.ok.injEq] at hl'
  subst hk' hl'
  rw [he, he', Bool.eq_iff_iff.2 (answer.trans (eq_comm.trans answer'.symm))]

theorem equal_trans (hu : h.Comparable u) (hv : h.Comparable v) (hw : h.Comparable w)
    (uv : h.equal u v = .ok true) (vw : h.equal v w = .ok true) : h.equal u w = .ok true := by
  rw [hh.equal_iff_key_eq hu hv] at uv
  rw [hh.equal_iff_key_eq hv hw] at vw
  exact (hh.equal_iff_key_eq hu hw).2 (uv.trans vw)

/-- The order of entries and of members does not matter. -/
theorem key_eq_of_rearranges (ho : h.get? a = some o) (hp : h.get? b = some p) (same : o.Rearranges p) :
    h.key (.ref o.kind a) = h.key (.ref p.kind b) := by
  obtain ⟨k, hk⟩ := hh.exists_key (v := .ref o.kind a) ⟨o, ho, rfl⟩
  obtain ⟨l, hl⟩ := hh.exists_key (v := .ref p.kind b) ⟨p, hp, rfl⟩
  have plain : (Value.ref o.kind a).plainKey = .inr a ∧ (Value.ref p.kind b).plainKey = .inr b := by
    cases same <;> exact ⟨rfl, rfl⟩
  have made := (keyWithin_iff_keyFrom plain.1 ho).1 hk
  have made' := (keyWithin_iff_keyFrom plain.2 hp).1 hl
  have functional (c : Value) (k l : Key) (hk : h.keyWithin h.slots.size c = .ok k)
      (hl : h.keyWithin h.slots.size c = .ok l) : k = l := HasKey.unique ⟨_, hk⟩ ⟨_, hl⟩
  rw [hk, hl, same.key_eq functional made made']

end Orderly

/-- Integers and floats are never equal. -/
theorem equal_int_float (h : Heap) (i : Int64) (x : Double) :
    h.equal (.int i) (.float x) = .ok false ∧ h.equal (.float x) (.int i) = .ok false := ⟨rfl, rfl⟩

end Heap

end TwinLisp
