import Mathlib.Logic.Function.Basic
import TwinLisp.Proofs.Collection.Listing
import TwinLisp.Proofs.Collection.Pairwise
import TwinLisp.Proofs.Collection.Key
import TwinLisp.Proofs.Syntax.Reader

/-!
# The data in code

What is left of a form when it is seen as data. Lists and vectors remember where they were read, and
nothing else does. Of two map entries whose keys are equal as data the later one stays, in the place of
the earlier one; of two members of a set that are equal the earlier one stays.

A form in which no two keys of a map and no two members of a set are equal loses nothing but locations.

## Main definitions

* `Form.keyBy` and `Form.key`: by which key a form is found as data.
* `Form.asData`: the form as data.
* `Form.IsDistinct`: no two keys of a map and no two members of a set are equal as data.

## Main statements

* `Form.keyBy_congr`: which forms are equal does not depend on how names are numbered.
* `Form.text_asData`, `Form.outline_asData`: what is left of a form without equal keys and members.
-/

namespace TwinLisp

/-- The items in pairs; one that is left over is paired with `filler`. -/
def pairsOr {α : Type} (filler : α) : List α → List (α × α)
  | [] => []
  | [x] => [(x, filler)]
  | x :: y :: rest => (x, y) :: pairsOr filler rest

section Pairs

variable {α β : Type}

theorem pairsOr_map (g : α → β) (filler : α) (xs : List α) :
    pairsOr (g filler) (xs.map g) = (pairsOr filler xs).map (Prod.map g g) := by
  fun_induction pairsOr filler xs with
  | case1 => rfl
  | case2 x => rfl
  | case3 x y rest ih => rw [List.map_cons, List.map_cons, pairsOr, ih, List.map_cons]; rfl

/-- The pairs of an even number of items, one after the other, are the items. -/
theorem flatMap_pairsOr (filler : α) {xs : List α} (even : xs.length % 2 = 0) :
    ((pairsOr filler xs).flatMap fun e => [e.1, e.2]) = xs := by
  fun_induction pairsOr filler xs with
  | case1 => rfl
  | case2 x => cases even
  | case3 x y rest ih =>
    have even' : rest.length % 2 = 0 := by
      simp only [List.length_cons] at even
      omega
    rw [List.flatMap_cons, ih even']
    rfl

theorem forall₂_pairsOr {R : α → β → Prop} {x : α} {y : β} (hxy : R x y) {xs : List α} {ys : List β}
    (h : List.Forall₂ R xs ys) :
    List.Forall₂ (fun e f => R e.1 f.1 ∧ R e.2 f.2) (pairsOr x xs) (pairsOr y ys) := by
  fun_induction pairsOr x xs generalizing ys with
  | case1 =>
    cases h
    exact .nil
  | case2 x =>
    obtain _ | ⟨h, hs⟩ := h
    cases hs
    exact .cons ⟨h, hxy⟩ .nil
  | case3 x x' rest ih =>
    obtain _ | ⟨h, hs⟩ := h
    obtain _ | ⟨h', hs⟩ := hs
    exact .cons ⟨h, h'⟩ (ih hs)

theorem mem_of_mem_pairsOr {filler : α} {xs : List α} {e : α × α} (he : e ∈ pairsOr filler xs) :
    e.1 ∈ xs ∧ (e.2 ∈ xs ∨ e.2 = filler) := by
  fun_induction pairsOr filler xs with
  | case1 => cases he
  | case2 x =>
    rw [List.mem_singleton.1 he]
    exact ⟨List.mem_cons_self .., .inr rfl⟩
  | case3 x y rest ih =>
    rcases List.mem_cons.1 he with rfl | he
    · exact ⟨by simp, .inl (by simp)⟩
    · obtain ⟨h, h'⟩ := ih he
      exact ⟨by simp [h], h'.imp_left fun h' => by simp [h']⟩

end Pairs

/-! ### Keys -/

/-- The key of a leaf as data, where names have the keys `names`. -/
def Leaf.keyBy (names : String → Key) : Leaf → Key
  | .nil => .ofNil
  | .bool b => .ofBool b
  | .int n => .ofInt n
  | .float x => .ofFloat x
  | .char c => .ofChar c
  | .str s => .ofString s
  | .symbol name => .tagged 5 (names name)
  | .keyword name => .tagged 6 (names name)
  | .object handle => .tagged 12 (.num handle)

namespace Form

/-- Facts about forms are proved of leaves and of groups of forms for which they hold. -/
@[elab_as_elim]
theorem structural {motive : Form → Prop} (leaf : ∀ d l, motive (leaf d l))
    (group : ∀ b items l, (∀ f ∈ items, motive f) → motive (group b items l)) (f : Form) : motive f := by
  induction hn : f.height using Nat.strongRecOn generalizing f with
  | _ n ih =>
    subst hn
    cases f with
    | leaf d l => exact leaf d l
    | group b items l => exact group b items l fun f hf => ih _ (height_lt_of_mem hf) f rfl

mutual

/-- The key of a form as data, where names have the keys `names`. -/
def keyBy (names : String → Key) : Form → Key
  | .leaf d _ => d.keyBy names
  | .group .map items _ => .ofMap (pairsOr .ofNil (keysBy names items))
  | .group .set items _ => .ofSet (keysBy names items)
  | .group _ items _ => .ofSequence (keysBy names items)

/-- The keys of some forms as data. -/
def keysBy (names : String → Key) : List Form → List Key
  | [] => []
  | f :: fs => keyBy names f :: keysBy names fs

end

/-- The key of a name: its characters. -/
def nameKey (name : String) : Key := .ofList (name.toList.map fun c => .num c.toNat)

/-- The key of a form as data. -/
def key (f : Form) : Key := f.keyBy nameKey

theorem keysBy_eq_map (names : String → Key) (fs : List Form) : keysBy names fs = fs.map (keyBy names) := by
  induction fs with
  | nil => rfl
  | cons f fs ih => rw [keysBy, ih, List.map_cons]

theorem nameKey_injective : Function.Injective nameKey := by
  intro a b h
  have chars := Key.ofList_inj h
  refine String.toList_inj.1 (List.map_injective_iff.2 (fun c d hcd => ?_) chars)
  injection hcd with hcd
  exact Char.toNat_inj.1 hcd

/-- The entries of a map, as forms. -/
def entries (items : List Form) : List (Form × Form) := pairsOr (.leaf .nil .unknown) items

theorem pairsOr_keysBy (names : String → Key) (items : List Form) :
    pairsOr .ofNil (keysBy names items) = (entries items).map (Prod.map (keyBy names) (keyBy names)) := by
  rw [keysBy_eq_map]
  exact pairsOr_map (keyBy names) (.leaf .nil .unknown) items

/-! ### Equal data

Names are known by number in a session, and by their characters here. As long as different names have
different keys, this makes no difference. -/

section Congruence

variable {γ : Type} {f g : γ → Key} {xs ys : List γ}

/-- Two keys that belong to one thing. -/
theorem forall₂_map_keys (f g : γ → Key) (xs : List γ) :
    List.Forall₂ (fun k l => ∃ x, k = f x ∧ l = g x) (xs.map f) (xs.map g) := by
  induction xs with
  | nil => exact .nil
  | cons x xs ih => exact .cons ⟨x, rfl, rfl⟩ ih

/-- What has one key in one way has one key in the other. -/
theorem eq_of_keys (same : ∀ x ∈ xs, ∀ y, f x = f y → g x = g y) {k : Key} (hk : k ∈ xs.map f) {l m : Key}
    (hl : ∃ x, k = f x ∧ l = g x) (hm : ∃ x, k = f x ∧ m = g x) : l = m := by
  obtain ⟨x, hx, rfl⟩ := List.mem_map.1 hk
  obtain ⟨y, hy, rfl⟩ := hl
  obtain ⟨z, hz, rfl⟩ := hm
  rw [← same x hx y hy, ← same x hx z hz]

theorem map_eq_of_map_eq (same : ∀ x ∈ xs, ∀ y, f x = f y → g x = g y) (h : xs.map f = ys.map f) :
    xs.map g = ys.map g :=
  eq_of_forall₂ (forall₂_map_keys f g xs) (h ▸ forall₂_map_keys f g ys) fun _ hk _ _ => eq_of_keys same hk

theorem perm_map_of_perm_map (same : ∀ x ∈ xs, ∀ y, f x = f y → g x = g y)
    (h : (xs.map f).Perm (ys.map f)) : (xs.map g).Perm (ys.map g) :=
  perm_of_forall₂ h (forall₂_map_keys f g xs) (forall₂_map_keys f g ys) fun _ hk _ _ => eq_of_keys same hk

end Congruence

section Names

variable {p q : String → Key}

theorem keyBy_congr_leaf (hq : Function.Injective q) {d : Leaf} {l : Location} {g : Form}
    (h : (leaf d l).keyBy q = g.keyBy q) : (leaf d l).keyBy p = g.keyBy p := by
  cases g with
  | leaf e m =>
    cases d with
    | symbol name =>
      cases e with
      | symbol other =>
        cases hq (Key.pair.inj h).2
        rfl
      | _ => cases h
    | keyword name =>
      cases e with
      | keyword other =>
        cases hq (Key.pair.inj h).2
        rfl
      | _ => cases h
    | _ =>
      -- Neither key depends on names.
      cases e with
      | symbol other => cases h
      | keyword other => cases h
      | _ => exact h
  | group b items m => cases b <;> cases d <;> cases h

/-- The key of a map's entry as data. -/
def entryKeyBy (names : String → Key) (e : Form × Form) : Key := .pair (e.1.keyBy names) (e.2.keyBy names)

theorem keyBy_map (names : String → Key) (items : List Form) (l : Location) :
    (group .map items l).keyBy names =
      .tagged 9 (.ofList (Key.sort ((entries items).map (entryKeyBy names)))) := by
  rw [keyBy, pairsOr_keysBy, Key.ofMap, List.map_map]
  rfl

theorem keyBy_set (names : String → Key) (items : List Form) (l : Location) :
    (group .set items l).keyBy names = .tagged 10 (.ofList (Key.sort (items.map (keyBy names)))) := by
  rw [keyBy, keysBy_eq_map, Key.ofSet]

/-- Lists and vectors with equal elements are equal. -/
theorem keyBy_sequence (names : String → Key) {b : Bracket} (hb : b = .list ∨ b = .vector)
    (items : List Form) (l : Location) :
    (group b items l).keyBy names = .tagged 8 (.ofList (items.map (keyBy names))) := by
  rcases hb with rfl | rfl <;> rw [keyBy, keysBy_eq_map, Key.ofSequence] <;> nofun

/-- **Which forms are equal as data does not depend on how names are numbered.** -/
theorem keyBy_congr (hq : Function.Injective q) {f g : Form} (h : f.keyBy q = g.keyBy q) :
    f.keyBy p = g.keyBy p := by
  induction f using structural generalizing g with
  | leaf d l => exact keyBy_congr_leaf hq h
  | group b items l ih =>
    have item : ∀ f ∈ items, ∀ g : Form, f.keyBy q = g.keyBy q → f.keyBy p = g.keyBy p :=
      fun f hf g => ih f hf
    have entry : ∀ e ∈ entries items, ∀ e', entryKeyBy q e = entryKeyBy q e' →
        entryKeyBy p e = entryKeyBy p e' := by
      intro e he e' hee
      obtain ⟨hk, hv⟩ := Key.pair.inj hee
      obtain ⟨mem, mem' | filled⟩ := mem_of_mem_pairsOr he
      · rw [entryKeyBy, item _ mem _ hk, item _ mem' _ hv, entryKeyBy]
      · rw [filled] at hv
        rw [entryKeyBy, item _ mem _ hk, filled, keyBy_congr_leaf hq hv, entryKeyBy]
    cases g with
    | leaf e m => exact (keyBy_congr_leaf hq h.symm).symm
    | group b' others m =>
      have kinds (b : Bracket) : (b = .list ∨ b = .vector) ∨ b = .map ∨ b = .set := by
        cases b <;> simp
      rcases kinds b with hb | rfl | rfl
      · rcases kinds b' with hb' | rfl | rfl
        · rw [keyBy_sequence q hb, keyBy_sequence q hb'] at h
          have items := Key.ofList_inj (Key.pair.inj h).2
          rw [keyBy_sequence p hb, keyBy_sequence p hb', map_eq_of_map_eq item items]
        · rw [keyBy_sequence q hb, keyBy_map] at h
          cases h
        · rw [keyBy_sequence q hb, keyBy_set] at h
          cases h
      · rcases kinds b' with hb' | rfl | rfl
        · rw [keyBy_sequence q hb', keyBy_map] at h
          cases h
        · rw [keyBy_map, keyBy_map] at h
          have perm := Key.perm_of_sort_eq (Key.ofList_inj (Key.pair.inj h).2)
          rw [keyBy_map, keyBy_map, Key.sort_eq_of_perm (perm_map_of_perm_map entry perm)]
        · rw [keyBy_map, keyBy_set] at h
          cases h
      · rcases kinds b' with hb' | rfl | rfl
        · rw [keyBy_sequence q hb', keyBy_set] at h
          cases h
        · rw [keyBy_map, keyBy_set] at h
          cases h
        · rw [keyBy_set, keyBy_set] at h
          have perm := Key.perm_of_sort_eq (Key.ofList_inj (Key.pair.inj h).2)
          rw [keyBy_set, keyBy_set, Key.sort_eq_of_perm (perm_map_of_perm_map item perm)]

/-- Under any numbering that tells names apart, forms are equal that have the same key. -/
theorem keyBy_eq_iff (hq : Function.Injective q) {f g : Form} : f.keyBy q = g.keyBy q ↔ f.key = g.key :=
  ⟨keyBy_congr hq, keyBy_congr nameKey_injective⟩

end Names

/-! ### Forms as data -/

/-- Of the members that are equal only the first. -/
def mergeMembers (fs : List Form) : List Form :=
  (fs.foldl (fun l f => Listing.add f.key f l) []).map (·.2)

/-- Of the entries whose keys are equal only the last, in the place of the first. -/
def mergeEntries (es : List (Form × Form)) : List (Form × Form) :=
  (es.foldl (fun l e => Listing.put e.1.key e l) []).map (·.2)

/-- The items of a group without those that are lost because others are equal. -/
def merge : Bracket → List Form → List Form
  | .map, items => (mergeEntries (entries items)).flatMap fun e => [e.1, e.2]
  | .set, items => mergeMembers items
  | _, items => items

/-- The location that a group keeps as data. -/
def keep : Bracket → Location → Location
  | .list, l => l
  | .vector, l => l
  | _, _ => .unknown

mutual

/-- The form as data. -/
def asData : Form → Form
  | .leaf d _ => .leaf d .unknown
  | .group b items l => .group b (merge b (allAsData items)) (keep b l)

/-- Some forms as data. -/
def allAsData : List Form → List Form
  | [] => []
  | f :: fs => asData f :: allAsData fs

end

/-- The location that the form keeps as data. -/
def keptLocation : Form → Location
  | .leaf _ _ => .unknown
  | .group b _ l => keep b l

/-- The depth, the kind and a location of every node, a group before its parts. -/
def outline (location : Form → Location) (f : Form) : List (Nat × String × Location) :=
  (f.walk 0).map fun n => (n.1, n.2.kindName, location n.2)

/-- No two keys of a map and no two members of a set are equal as data. -/
inductive IsDistinct : Form → Prop where
  | leaf {d : Leaf} {l : Location} : IsDistinct (.leaf d l)
  | group {b : Bracket} {fs : List Form} {l : Location} (hs : ∀ f ∈ fs, f.IsDistinct)
    (keys : b = .map → ((entries fs).map fun e => e.1.key).Nodup)
    (members : b = .set → (fs.map key).Nodup) : IsDistinct (.group b fs l)

theorem isDistinct_group {b : Bracket} {fs : List Form} {l : Location} :
    (group b fs l).IsDistinct ↔ (∀ f ∈ fs, f.IsDistinct) ∧
      (b = .map → ((entries fs).map fun e => e.1.key).Nodup) ∧ (b = .set → (fs.map key).Nodup) := by
  constructor
  · rintro ⟨⟩
    exact ⟨‹_›, ‹_›, ‹_›⟩
  · rintro ⟨hs, keys, members⟩
    exact .group hs keys members

mutual

/-- Whether no two keys of a map and no two members of a set are equal as data. -/
def decideDistinct : (f : Form) → Decidable f.IsDistinct
  | .leaf _ _ => .isTrue .leaf
  | .group b fs l =>
    have := decideAllDistinct fs
    decidable_of_iff _ (isDistinct_group (b := b) (l := l)).symm

/-- The same for some forms. -/
def decideAllDistinct : (fs : List Form) → Decidable (∀ f ∈ fs, f.IsDistinct)
  | [] => .isTrue nofun
  | f :: fs =>
    have := decideDistinct f
    have := decideAllDistinct fs
    decidable_of_iff _ List.forall_mem_cons.symm

end

instance : DecidablePred IsDistinct := decideDistinct

theorem allAsData_eq_map (fs : List Form) : allAsData fs = fs.map asData := by
  induction fs with
  | nil => rfl
  | cons f fs ih => rw [allAsData, ih, List.map_cons]

theorem mergeMembers_of_nodup {fs : List Form} (h : (fs.map key).Nodup) : mergeMembers fs = fs := by
  rw [mergeMembers, Listing.foldl_of_nodup Listing.add_of_notMem [] (by simpa using h)]
  simp [Function.comp_def]

theorem mergeEntries_of_nodup {es : List (Form × Form)} (h : (es.map fun e => e.1.key).Nodup) :
    mergeEntries es = es := by
  rw [mergeEntries, Listing.foldl_of_nodup Listing.put_of_notMem [] (by simpa using h)]
  simp [Function.comp_def]

theorem entries_map_asData (fs : List Form) :
    entries (fs.map asData) = (entries fs).map (Prod.map asData asData) :=
  pairsOr_map asData (.leaf .nil .unknown) fs

/-- The keys of the entries are those of the items as data. -/
theorem map_key_entries_asData {fs : List Form} (h : ∀ f ∈ fs, f.asData.key = f.key) :
    ((entries (fs.map asData)).map fun e => e.1.key) = (entries fs).map fun e => e.1.key := by
  rw [entries_map_asData, List.map_map]
  exact List.map_congr_left fun e he => h _ (mem_of_mem_pairsOr he).1

theorem map_key_asData {fs : List Form} (h : ∀ f ∈ fs, f.asData.key = f.key) :
    (fs.map asData).map key = fs.map key := by
  rw [List.map_map]
  exact List.map_congr_left h

/-- Nothing is lost where keys and members differ. -/
theorem merge_map_asData {b : Bracket} {fs : List Form} (even : b = .map → fs.length % 2 = 0)
    (keys : b = .map → ((entries fs).map fun e => e.1.key).Nodup) (members : b = .set → (fs.map key).Nodup)
    (h : ∀ f ∈ fs, f.asData.key = f.key) : merge b (fs.map asData) = fs.map asData := by
  cases b with
  | list => rfl
  | vector => rfl
  | set => 
    rw [merge, mergeMembers_of_nodup]
    rw [map_key_asData h]
    exact members rfl
  | map =>
    rw [merge, mergeEntries_of_nodup]
    · exact flatMap_pairsOr _ (by rw [List.length_map, even rfl])
    · rw [map_key_entries_asData h]
      exact keys rfl

/-- The key of a group depends on the keys of its items alone. -/
theorem key_group_map_asData {b : Bracket} {fs : List Form} {l m : Location}
    (h : ∀ f ∈ fs, f.asData.key = f.key) : (group b (fs.map asData) l).key = (group b fs m).key := by
  have items : keysBy nameKey (fs.map asData) = keysBy nameKey fs := by
    rw [keysBy_eq_map, keysBy_eq_map]
    exact map_key_asData h
  cases b <;> simp only [key, keyBy, items]

variable {f : Form}

theorem key_asData (hw : f.IsWritten) (hd : f.IsDistinct) : f.asData.key = f.key := by
  induction hd with
  | leaf => rfl
  | group _ keys members ih =>
    cases hw with
    | group hs even =>
      have items := fun f hf => ih f hf (hs f hf)
      rw [asData, allAsData_eq_map, merge_map_asData even keys members items]
      exact key_group_map_asData items

/-- **A form without equal keys and members has the same parts as data.** -/
theorem asData_group {b : Bracket} {fs : List Form} {l : Location} (hw : (group b fs l).IsWritten)
    (hd : (group b fs l).IsDistinct) : (group b fs l).asData = group b (fs.map asData) (keep b l) := by
  cases hw with
  | group hs even =>
    cases hd with
    | group distinct keys members =>
      rw [asData, allAsData_eq_map, merge_map_asData even keys members]
      exact fun f hf => key_asData (hs f hf) (distinct f hf)

/-! ### What is left -/

theorem itemTexts_cons_cons (f g : Form) (fs : List Form) :
    itemTexts (f :: g :: fs) = f.text ++ " " ++ itemTexts (g :: fs) := by
  rw [itemTexts]
  nofun

theorem entryTexts_cons_cons (k v f : Form) (fs : List Form) :
    entryTexts (k :: v :: f :: fs) = k.text ++ " " ++ v.text ++ ", " ++ entryTexts (f :: fs) := by
  rw [entryTexts]
  nofun

theorem itemTexts_congr {fs : List Form} (h : ∀ f ∈ fs, f.asData.text = f.text) :
    itemTexts (fs.map asData) = itemTexts fs := by
  induction fs with
  | nil => rfl
  | cons f fs ih =>
    obtain ⟨hf, hs⟩ := List.forall_mem_cons.1 h
    cases fs with
    | nil => exact hf
    | cons g fs =>
      rw [List.map_cons, List.map_cons, itemTexts_cons_cons, itemTexts_cons_cons, hf, ← List.map_cons, ih hs]

theorem entryTexts_congr {fs : List Form} (h : ∀ f ∈ fs, f.asData.text = f.text) :
    entryTexts (fs.map asData) = entryTexts fs := by
  fun_induction pairsOr (leaf .nil .unknown) fs with
  | case1 => rfl
  | case2 k => exact h k (by simp)
  | case3 k v rest ih =>
    have hk := h k (by simp)
    have hv := h v (by simp)
    have hr := ih fun f hf => h f (by simp [hf])
    cases rest with
    | nil => simp only [List.map_cons, List.map_nil, entryTexts, hk, hv]
    | cons f rest =>
      rw [List.map_cons, List.map_cons, List.map_cons, entryTexts_cons_cons, entryTexts_cons_cons, hk, hv,
        ← List.map_cons, hr]

/-- **A form without equal keys and members prints as the data it stands for.** -/
theorem text_asData (hw : f.IsWritten) (hd : f.IsDistinct) : f.asData.text = f.text := by
  induction f using structural with
  | leaf d l => rfl
  | group b items l ih =>
    have whole := asData_group hw hd
    cases hw with
    | group hs even =>
      cases hd with
      | group distinct keys members =>
        have texts : ∀ f ∈ items, f.asData.text = f.text := fun f hf => ih f hf (hs f hf) (distinct f hf)
        rw [whole]
        cases b with
        | map => rw [text, text, entryTexts_congr texts]
        | _ => rw [text, text, itemTexts_congr texts] <;> nofun

theorem walkAll_eq_flatMap (depth : Nat) (fs : List Form) : walkAll depth fs = fs.flatMap (walk depth) := by
  induction fs with
  | nil => rfl
  | cons f fs ih => rw [walkAll, ih, List.flatMap_cons]

theorem walk_asData (hw : f.IsWritten) (hd : f.IsDistinct) (depth : Nat) :
    (f.asData.walk depth).map (fun n => (n.1, n.2.kindName, n.2.location)) =
      (f.walk depth).map fun n => (n.1, n.2.kindName, n.2.keptLocation) := by
  induction f using structural generalizing depth with
  | leaf d l => rfl
  | group b items l ih =>
    rw [asData_group hw hd]
    cases hw with
    | group hs even =>
      cases hd with
      | group distinct keys members =>
        rw [walk, walk, walkAll_eq_flatMap, walkAll_eq_flatMap, List.map_cons, List.map_cons,
          List.flatMap_map, List.map_flatMap, List.map_flatMap]
        refine congrArg₂ List.cons rfl (List.flatMap_congr ?_)
        exact fun f hf => ih f hf (hs f hf) (distinct f hf) (depth + 1)

/-- **A form without equal keys and members has the same nodes as data,** of which the lists and the
vectors keep their locations. -/
theorem outline_asData (hw : f.IsWritten) (hd : f.IsDistinct) :
    f.asData.outline location = f.outline keptLocation :=
  walk_asData hw hd 0

end Form

end TwinLisp
