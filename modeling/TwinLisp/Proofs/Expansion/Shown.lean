import Mathlib.Order.Lattice.Nat
import TwinLisp.Expansion.Quotation
import TwinLisp.Proofs.Heap.Depth
import TwinLisp.Proofs.Heap.Placement
import TwinLisp.Proofs.Syntax.Data

/-!
# Code on the heap

A value shows a form if it is that form as data: the parts of the form are in the parts of the value,
in the same order, and names have the symbols that the session knows them by. What a value shows can be
read off the heap without changing anything.

## Main definitions

* `Form.ShownBy`: a value shows a form.
* `SymbolTable.numbering`: the keys of names in a session.

## Main statements

* `Form.ShownBy.mono`: a value goes on showing its form while what is there stays there.
* `Form.ShownBy.key_eq`: its key is that of the form.
* `Form.ShownBy.formOfValue_eq`: as code it is the form.
-/

namespace TwinLisp

/-! ### Names by number -/

namespace SymbolTable

/-- The key of a name: the number of its symbol. Names that are not known have keys of their own. -/
def numbering (σ : SymbolTable) (name : String) : Key :=
  match σ.find? name with
  | some x => .num x.index
  | none => .pair (.num 0) (Form.nameKey name)

theorem numbering_of_find? {σ : SymbolTable} {name : String} {x : Symbol} (h : σ.find? name = some x) :
    σ.numbering name = .num x.index := by
  rw [numbering, h]

theorem numbering_injective (σ : SymbolTable) : Function.Injective σ.numbering := by
  intro a b h
  unfold numbering at h
  split at h
  · next x hx =>
    split at h
    · next y hy =>
      cases x
      cases y
      cases h
      rw [← name_of_find? hx, name_of_find? hy]
    · cases h
  · split at h
    · cases h
    · exact Form.nameKey_injective (Key.pair.inj h).2

end SymbolTable

/-! ### Showing -/

/-- The kind of group that data is, and the location that it keeps. -/
def Object.group? : Object → Option (Bracket × Location)
  | .list _ l => some (.list, l)
  | .vector _ l => some (.vector, l)
  | .map _ => some (.map, .unknown)
  | .set _ => some (.set, .unknown)
  | _ => none

variable {h h' : Heap} {σ σ' : SymbolTable}

/-- The value shows the leaf. -/
def Leaf.ShownBy (h : Heap) (σ : SymbolTable) : Leaf → Value → Prop
  | .nil, v => v = .nil
  | .bool b, v => v = .bool b
  | .int n, v => v = .int n
  | .float x, v => v = .float x
  | .char c, v => v = .char c
  | .str s, v => ∃ a, v = .ref .str a ∧ h.get? a = some (.str s)
  | .symbol name, v => ∃ x, v = .symbol x ∧ σ.find? name = some x
  | .keyword name, v => ∃ x, v = .keyword x ∧ σ.find? name = some x
  | .object _, _ => False

namespace Form

mutual

/-- The value shows the form. -/
def ShownBy (h : Heap) (σ : SymbolTable) : Form → Value → Prop
  | .leaf d l, v => l = .unknown ∧ d.ShownBy h σ v
  | .group b items l, v => ∃ a o, v = .ref o.kind a ∧ h.get? a = some o ∧ o.group? = some (b, l) ∧
      AllShownBy h σ items o.contents

/-- The values show the forms, one by one. -/
def AllShownBy (h : Heap) (σ : SymbolTable) : List Form → List Value → Prop
  | [], vs => vs = []
  | f :: fs, vs => ∃ v rest, vs = v :: rest ∧ ShownBy h σ f v ∧ AllShownBy h σ fs rest

end

theorem allShownBy_iff {fs : List Form} {vs : List Value} :
    AllShownBy h σ fs vs ↔ List.Forall₂ (ShownBy h σ) fs vs := by
  induction fs generalizing vs with
  | nil =>
    rw [AllShownBy, List.forall₂_nil_left_iff]
  | cons f fs ih =>
    rw [AllShownBy, List.forall₂_cons_left_iff]
    constructor
    · rintro ⟨v, rest, rfl, hv, hs⟩
      exact ⟨v, rest, hv, ih.1 hs, rfl⟩
    · rintro ⟨v, rest, hv, hs, rfl⟩
      exact ⟨v, rest, rfl, hv, ih.2 hs⟩

namespace ShownBy

theorem leaf {d : Leaf} {v : Value} (hd : d.ShownBy h σ v) : (leaf d .unknown).ShownBy h σ v := by
  rw [ShownBy]
  exact ⟨rfl, hd⟩

theorem group {b : Bracket} {items : List Form} {l : Location} {o : Object} {a : Address}
    (ho : h.get? a = some o) (hg : o.group? = some (b, l))
    (hs : List.Forall₂ (ShownBy h σ) items o.contents) :
    (group b items l).ShownBy h σ (.ref o.kind a) := by
  rw [ShownBy]
  exact ⟨a, o, rfl, ho, hg, allShownBy_iff.2 hs⟩

/-- What it takes to show a group. -/
theorem of_group {b : Bracket} {items : List Form} {l : Location} {v : Value}
    (hv : (Form.group b items l).ShownBy h σ v) :
    ∃ a o, v = .ref o.kind a ∧ h.get? a = some o ∧ o.group? = some (b, l) ∧
      List.Forall₂ (ShownBy h σ) items o.contents := by
  rw [ShownBy] at hv
  obtain ⟨a, o, rfl, ho, hg, hs⟩ := hv
  exact ⟨a, o, rfl, ho, hg, allShownBy_iff.1 hs⟩

/-- **A value goes on showing its form while what is there stays there.** -/
theorem mono (objects : ∀ {a o}, h.get? a = some o → h'.get? a = some o)
    (names : ∀ {name x}, σ.find? name = some x → σ'.find? name = some x) {f : Form} {v : Value}
    (hv : f.ShownBy h σ v) : f.ShownBy h' σ' v := by
  induction f using structural generalizing v with
  | leaf d l =>
    rw [ShownBy] at hv
    obtain ⟨rfl, hd⟩ := hv
    refine .leaf ?_
    cases d with
    | str s =>
      obtain ⟨a, rfl, ha⟩ := hd
      exact ⟨a, rfl, objects ha⟩
    | symbol name =>
      obtain ⟨x, rfl, hx⟩ := hd
      exact ⟨x, rfl, names hx⟩
    | keyword name =>
      obtain ⟨x, rfl, hx⟩ := hd
      exact ⟨x, rfl, names hx⟩
    | _ => exact hd
  | group b items l ih =>
    obtain ⟨a, o, rfl, ho, hg, hs⟩ := hv.of_group
    exact .group (objects ho) hg (forall₂_imp_of_mem hs fun f hf v _ => ih f hf)

/-- A reference that shows a form leads to an object whose contents show less high forms. -/
theorem of_ref {f : Form} {k : Kind} {a : Address} (hv : f.ShownBy h σ (.ref k a)) :
    ∃ o, h.get? a = some o ∧ ∀ c ∈ o.contents, ∃ g : Form, g.height < f.height ∧ g.ShownBy h σ c := by
  cases f with
  | leaf d l =>
    rw [ShownBy] at hv
    obtain ⟨-, hd⟩ := hv
    cases d with
    | str s =>
      obtain ⟨b, e, hb⟩ := hd
      cases e
      exact ⟨.str s, hb, nofun⟩
    | symbol name =>
      obtain ⟨x, e, -⟩ := hd
      cases e
    | keyword name =>
      obtain ⟨x, e, -⟩ := hd
      cases e
    | object n => cases hd
    | _ => cases hd
  | group b items l =>
    obtain ⟨a', o, e, ho, -, hs⟩ := hv.of_group
    cases e
    refine ⟨o, ho, fun c hc => ?_⟩
    obtain ⟨g, hg, shown⟩ := exists_of_forall₂_right hs hc
    exact ⟨g, height_lt_of_mem hg, shown⟩

/-- **A value that shows a form leads through no more references in a row than there are slots.** -/
theorem within {f : Form} {v : Value} (hv : f.ShownBy h σ v) : h.Within (h.slots.size + 1) v := by
  -- The age of an object is the height of the lowest form that it shows.
  let heights (a : Address) : Set Nat := {n | ∃ (g : Form) (k : Kind), g.height = n ∧ g.ShownBy h σ (.ref k a)}
  let live (a : Address) : Prop := ∃ n ∈ heights a, n ≤ f.height
  have part {a : Address} {o : Object} {n : Nat} (hn : n ∈ heights a) (ho : h.get? a = some o) {k : Kind}
      {c : Address} (hc : .ref k c ∈ o.contents) : ∃ m ∈ heights c, m < n := by
    obtain ⟨g, l, rfl, hg⟩ := hn
    obtain ⟨o', ho', below⟩ := hg.of_ref
    rw [ho] at ho'
    cases ho'
    obtain ⟨g', lt, hg'⟩ := below _ hc
    exact ⟨_, ⟨g', k, rfl, hg'⟩, lt⟩
  have founded : h.Founded live := by
    refine ⟨fun a => sInf (heights a), f.height + 1, ?_, ?_⟩
    · rintro a ⟨n, hn, le⟩
      exact Nat.lt_succ_of_le ((Nat.sInf_le hn).trans le)
    · rintro a o ⟨n, hn, -⟩ ho k c hc
      obtain ⟨m, hm, lt⟩ := part (Nat.sInf_mem ⟨n, hn⟩) ho hc
      exact Nat.lt_of_le_of_lt (Nat.sInf_le hm) lt
  have closed : h.Closed live := by
    refine ⟨?_, ?_⟩
    · rintro a ⟨-, ⟨g, k, -, hg⟩, -⟩
      obtain ⟨o, ho, -⟩ := hg.of_ref
      exact Option.isSome_of_eq_some ho
    · rintro a o ⟨n, hn, le⟩ ho k c hc
      obtain ⟨m, hm, lt⟩ := part hn ho hc
      exact ⟨m, hm, (Nat.le_of_lt lt).trans le⟩
  have start {k : Kind} {a : Address} (e : v = .ref k a) : live a :=
    ⟨_, ⟨f, k, rfl, e ▸ hv⟩, Nat.le_refl _⟩
  exact @Heap.Founded.within h live founded closed v start

/-! ### Reading off the heap -/

/-- The object that shows a group is data, and the value says so. -/
theorem of_group_succ {b : Bracket} {items : List Form} {l : Location} {v : Value} {n : Nat}
    (hv : (Form.group b items l).ShownBy h σ v) (hn : h.Within n v) :
    ∃ a o m, n = m + 1 ∧ v = .ref o.kind a ∧ h.get? a = some o ∧ o.group? = some (b, l) ∧
      List.Forall₂ (ShownBy h σ) items o.contents ∧ ∀ c ∈ o.contents, h.Within m c := by
  obtain ⟨a, o, rfl, ho, hg, hs⟩ := hv.of_group
  cases n with
  | zero =>
    rw [Heap.Within] at hn
    obtain ⟨k, hk⟩ := hn
    cases o <;> cases hg <;> cases hk
  | succ m =>
    rw [Heap.Within] at hn
    exact ⟨a, o, m, rfl, rfl, ho, hg, hs, hn rfl ho⟩

theorem leaf_keyWithin {d : Leaf} {v : Value} {n : Nat} (hd : d.ShownBy h σ v) (hn : h.Within n v) :
    h.keyWithin n v = .ok (d.keyBy σ.numbering) := by
  cases d with
  | str s =>
    obtain ⟨a, rfl, ha⟩ := hd
    cases n with
    | zero =>
      rw [Heap.Within] at hn
      obtain ⟨k, hk⟩ := hn
      cases hk
    | succ n =>
      rw [Heap.keyWithin]
      simp only [Value.plainKey, ha]
      rfl
  | symbol name =>
    obtain ⟨x, rfl, hx⟩ := hd
    rw [Leaf.keyBy, SymbolTable.numbering_of_find? hx]
    cases n <;> rfl
  | keyword name =>
    obtain ⟨x, rfl, hx⟩ := hd
    rw [Leaf.keyBy, SymbolTable.numbering_of_find? hx]
    cases n <;> rfl
  | object handle => cases hd
  | _ =>
    cases hd
    cases n <;> rfl

theorem mapM_ok {α β ε : Type} {x : α → Except ε β} {as : List α} {bs : List β}
    (h : List.Forall₂ (fun b a => x a = .ok b) bs as) : as.mapM x = .ok bs := by
  induction h with
  | nil => rfl
  | cons h _ ih =>
    rw [List.mapM_cons, h, ih]
    rfl

theorem mapM_ok_entries {α β ε : Type} {x : α → Except ε β} {es : List (α × α)} {bs : List β}
    (filler : β) (h : List.Forall₂ (fun b a => x a = .ok b) bs (es.flatMap fun e => [e.1, e.2])) :
    (es.mapM fun e => do return (← x e.1, ← x e.2)) = .ok (pairsOr filler bs) := by
  induction es generalizing bs with
  | nil =>
    cases h
    rfl
  | cons e es ih =>
    obtain _ | ⟨hk, h⟩ := h
    obtain _ | ⟨hv, h⟩ := h
    rw [List.mapM_cons, hk, hv, pairsOr, ih h]
    rfl

/-- The key of a value is that of the form which it shows. -/
theorem keyWithin_eq {f : Form} {v : Value} {n : Nat} (hv : f.ShownBy h σ v) (hn : h.Within n v) :
    h.keyWithin n v = .ok (f.keyBy σ.numbering) := by
  induction f using structural generalizing v n with
  | leaf d l =>
    rw [ShownBy] at hv
    exact leaf_keyWithin hv.2 hn
  | group b items l ih =>
    obtain ⟨a, o, m, rfl, rfl, ho, hg, hs, below⟩ := hv.of_group_succ hn
    have parts : List.Forall₂ (fun k c => h.keyWithin m c = .ok k) (items.map (keyBy σ.numbering))
        o.contents := by
      rw [List.forall₂_map_left_iff]
      exact forall₂_imp_of_mem hs fun f hf c hc shown => ih f hf shown (below c hc)
    rw [Heap.keyWithin]
    cases o with
    | list vs l =>
      cases hg
      have keys : vs.mapM (h.keyWithin m) = .ok _ := mapM_ok parts
      simp only [Value.plainKey, Object.kind, ho]
      rw [keys, keyBy_sequence _ (.inl rfl)]
      rfl
    | vector vs l =>
      cases hg
      have keys : vs.mapM (h.keyWithin m) = .ok _ := mapM_ok parts
      simp only [Value.plainKey, Object.kind, ho]
      rw [keys, keyBy_sequence _ (.inr rfl)]
      rfl
    | map c =>
      cases hg
      simp only [Value.plainKey, Object.kind, ho]
      rw [mapM_ok_entries .ofNil parts, keyBy, keysBy_eq_map]
      rfl
    | set c =>
      cases hg
      have keys : c.toList.mapM (h.keyWithin m) = .ok _ := mapM_ok parts
      simp only [Value.plainKey, Object.kind, ho]
      rw [keys, keyBy_set]
      rfl
    | _ => cases hg

/-- In a session, the key of a value is that of the form which it shows. -/
theorem key_eq {f : Form} {v : Value} (hv : f.ShownBy h σ v) : h.key v = .ok (f.keyBy σ.numbering) :=
  hv.keyWithin_eq hv.within

variable {s : Session}

theorem keyOf_eq {f : Form} {v : Value} (hv : f.ShownBy s.heap s.symbols v) :
    Eval.keyOf v s = .ok (f.keyBy s.symbols.numbering) s := by
  change Eval.resolving (s.heap.key v) s = _
  rw [hv.key_eq]
  rfl

/-! ### As code again -/

theorem run_mapM {α β : Type} {x : α → Eval β} {as : List α} {bs : List β}
    (h : List.Forall₂ (fun b a => x a s = .ok b s) bs as) : as.mapM x s = .ok bs s := by
  induction h with
  | nil => rfl
  | cons h _ ih =>
    rw [List.mapM_cons, Eval.bind_eq_of_ok h, Eval.bind_eq_of_ok ih]
    rfl

/-- Entries whose parts are read off are read off in pairs. -/
theorem run_mapM_entries {α β : Type} {x : α → Eval β} {es : List (α × α)} {bs : List β}
    (h : List.Forall₂ (fun b a => x a s = .ok b s) bs (es.flatMap fun e => [e.1, e.2])) :
    ∃ pairs, (es.mapM fun e : α × α => do
      let k ← x e.1
      let v ← x e.2
      return [k, v]) s = .ok pairs s ∧ pairs.flatten = bs := by
  induction es generalizing bs with
  | nil =>
    cases h
    exact ⟨[], rfl, rfl⟩
  | cons e es ih =>
    obtain _ | @⟨k, _, _, _, hk, h⟩ := h
    obtain _ | @⟨v, _, _, _, hv, h⟩ := h
    obtain ⟨pairs, hp, rfl⟩ := ih h
    refine ⟨[k, v] :: pairs, ?_, rfl⟩
    have entry : (do
        let k ← x e.1
        let v ← x e.2
        return [k, v] : Eval (List β)) s = .ok [k, v] s := by
      rw [Eval.bind_eq_of_ok hk, Eval.bind_eq_of_ok hv]
      rfl
    rw [List.mapM_cons, Eval.bind_eq_of_ok entry, Eval.bind_eq_of_ok hp]
    rfl

theorem leaf_formWithin {d : Leaf} {v : Value} {n : Nat} (hd : d.ShownBy s.heap s.symbols v)
    (hn : s.heap.Within n v) : Eval.formWithin n v s = .ok (Form.leaf d .unknown) s := by
  cases d with
  | str text =>
    obtain ⟨a, rfl, ha⟩ := hd
    cases n with
    | zero =>
      rw [Heap.Within] at hn
      obtain ⟨k, hk⟩ := hn
      cases hk
    | succ n =>
      exact (Eval.bind_eq_of_ok (Eval.object_eq_of_get? ha)).trans rfl
  | symbol name =>
    obtain ⟨x, rfl, hx⟩ := hd
    have known : s.symbols.name x = name := SymbolTable.name_of_find? hx
    cases n <;> exact congrArg (fun n => EStateM.Result.ok (Form.leaf (.symbol n) .unknown) s) known
  | keyword name =>
    obtain ⟨x, rfl, hx⟩ := hd
    have known : s.symbols.name x = name := SymbolTable.name_of_find? hx
    cases n <;> exact congrArg (fun n => EStateM.Result.ok (Form.leaf (.keyword n) .unknown) s) known
  | object handle => cases hd
  | _ =>
    cases hd
    cases n <;> rfl

/-- What a value shows is the form that it is as code. -/
theorem formWithin_eq {f : Form} {v : Value} {n : Nat} (hv : f.ShownBy s.heap s.symbols v)
    (hn : s.heap.Within n v) : Eval.formWithin n v s = .ok f s := by
  induction f using structural generalizing v n with
  | leaf d l =>
    rw [ShownBy] at hv
    obtain ⟨rfl, hd⟩ := hv
    exact leaf_formWithin hd hn
  | group b items l ih =>
    obtain ⟨a, o, m, rfl, rfl, ho, hg, hs, below⟩ := hv.of_group_succ hn
    have parts : List.Forall₂ (fun f c => Eval.formWithin m c s = .ok f s) items o.contents :=
      forall₂_imp_of_mem hs fun f hf c hc shown => ih f hf shown (below c hc)
    have unfolded : Eval.formWithin (m + 1) (.ref o.kind a) s =
        Eval.formOfObject (Eval.formWithin m) (.ref o.kind a) o s := by
      cases o <;> cases hg <;> exact Eval.bind_eq_of_ok (Eval.object_eq_of_get? ho)
    rw [unfolded]
    cases o with
    | list vs l =>
      cases hg
      exact Eval.bind_eq_of_ok (run_mapM parts)
    | vector vs l =>
      cases hg
      exact Eval.bind_eq_of_ok (run_mapM parts)
    | map c =>
      cases hg
      obtain ⟨pairs, hp, rfl⟩ := run_mapM_entries parts
      exact Eval.bind_eq_of_ok hp
    | set c =>
      cases hg
      exact Eval.bind_eq_of_ok (run_mapM parts)
    | _ => cases hg

/-- **What a value shows is the form that it is as code.** -/
theorem formOfValue_eq {f : Form} {v : Value} (hv : f.ShownBy s.heap s.symbols v) :
    Eval.formOfValue v s = .ok f s :=
  hv.formWithin_eq hv.within

end ShownBy

end Form

end TwinLisp
