import Mathlib.Data.Finset.Sum
import TwinLisp.Proofs.Heap.Placement
import TwinLisp.Proofs.Heap.Reachability

/-!
# Marking marks what is reachable

The marker takes nodes off its list of work until nothing unsettled is left on it. What it keeps on the
way is the invariant `Heap.Marking`: everything marked or waiting is reachable, every root and every
link of a marked node is marked or waiting, and the tables of marks are as long as what they describe.

The fuel it starts with is the number of nodes. Every step marks a node that was not marked, so the fuel
is never less than the number of unmarked nodes (`Heap.unmarked`), and when it is used up nothing
unmarked is left.

## Main statements

* `Heap.contains_mark_iff`: of the nodes that exist, exactly the reachable ones are marked.
-/

namespace TwinLisp

namespace Marks

@[simp] theorem contains_none (slots scopes : Nat) (n : Node) :
    (none slots scopes).contains n = false := by
  cases n with
  | object a => simp only [contains, none, Array.getElem?_replicate]; split <;> rfl
  | scope i => simp only [contains, none, Array.getElem?_replicate]; split <;> rfl
  | handle h => simp [contains, none]

/-- What was marked before stays marked. -/
theorem contains_insert_of_contains {m : Marks} {n k : Node} (h : m.contains k = true) :
    (m.insert n).contains k = true := by
  cases n <;> cases k <;> simp_all [contains, insert, Array.getElem?_setIfInBounds]
  all_goals
    split
    · split <;> simp_all
    · exact h

end Marks

namespace Heap

variable {h : Heap} {scopes : Scopes} {marks : Marks} {roots work : List Node}

/-- The tables of marks have a place for every slot and for every scope. -/
structure Fits (h : Heap) (scopes : Scopes) (marks : Marks) : Prop where
  objects : marks.objects.size = h.slots.size
  scopes : marks.scopes.size = scopes.size

theorem Fits.insert (hf : h.Fits scopes marks) (n : Node) : h.Fits scopes (marks.insert n) := by
  cases n <;> exact ⟨by simp [Marks.insert, hf.objects], by simp [Marks.insert, hf.scopes]⟩

/-- An object is live if its slot holds it in the generation of its address. -/
theorem isLive_iff {a : Address} :
    h.isLive a = true ↔ ∃ o, h.slots[a.index]? = some ⟨a.generation, some o⟩ := by
  constructor
  · intro hl
    obtain ⟨o, ho⟩ := Option.isSome_iff_exists.1 hl
    exact ⟨o, get?_eq_some_iff.1 ho⟩
  · rintro ⟨o, ho⟩
    simp [isLive, get?, ho]

/-- A slot holds no more than one object, so two objects of one slot have one address. -/
theorem eq_of_isLive {a b : Address} (ha : h.isLive a = true) (hb : h.isLive b = true)
    (hi : a.index = b.index) : a = b := by
  obtain ⟨o, ho⟩ := isLive_iff.1 ha
  obtain ⟨p, hp⟩ := isLive_iff.1 hb
  rw [hi, hp] at ho
  cases a
  cases b
  simp_all

/-- A node that exists is marked when it is inserted. -/
theorem contains_insert_self (hf : h.Fits scopes marks) {n : Node} (hn : h.hasNode scopes n = true) :
    (marks.insert n).contains n = true := by
  cases n with
  | object a =>
    obtain ⟨o, ho⟩ := isLive_iff.1 hn
    obtain ⟨hlt, -⟩ := Array.getElem?_eq_some_iff.1 ho
    have hlt : a.index < marks.objects.size := hf.objects ▸ hlt
    simp [Marks.contains, Marks.insert, hlt]
  | scope i =>
    have hlt : i < marks.scopes.size := by simpa [hf.scopes, hasNode] using hn
    simp [Marks.contains, Marks.insert, hlt]
  | handle n => simp [Marks.contains, Marks.insert]

/-- Among the nodes that exist, insertion marks the inserted one and no other. -/
theorem contains_insert_iff (hf : h.Fits scopes marks) {n k : Node}
    (hn : h.hasNode scopes n = true) (hk : h.hasNode scopes k = true) :
    (marks.insert n).contains k = true ↔ k = n ∨ marks.contains k = true := by
  constructor
  · intro hc
    cases n with
    | object a =>
      cases k with
      | object b =>
        by_cases hi : a.index = b.index
        · exact .inl (congrArg Node.object (eq_of_isLive hk hn hi.symm))
        · exact .inr (by simpa [Marks.contains, Marks.insert, Array.getElem?_setIfInBounds_ne hi]
            using hc)
      | scope _ => exact .inr hc
      | handle _ => exact .inr hc
    | scope i =>
      cases k with
      | object _ => exact .inr hc
      | scope j =>
        by_cases hi : i = j
        · exact .inl (congrArg Node.scope hi.symm)
        · exact .inr (by simpa [Marks.contains, Marks.insert, Array.getElem?_setIfInBounds_ne hi]
            using hc)
      | handle _ => exact .inr hc
    | handle i =>
      cases k with
      | object _ => exact .inr hc
      | scope _ => exact .inr hc
      | handle j =>
        by_cases hi : i = j
        · exact .inl (congrArg Node.handle hi.symm)
        · exact .inr (by simpa [Marks.contains, Marks.insert, hi] using hc)
  · rintro (rfl | hc)
    · exact contains_insert_self hf hn
    · exact Marks.contains_insert_of_contains hc

/-! ### How many nodes are left -/

/-- The slots, scopes and handles that are not marked, all in one set. -/
def unmarkedNodes (h : Heap) (scopes : Scopes) (marks : Marks) : Finset (Nat ⊕ Nat ⊕ Nat) :=
  (((Finset.range h.slots.size).filter fun i => ¬ marks.objects[i]?.getD false).disjSum
    (((Finset.range scopes.size).filter fun i => ¬ marks.scopes[i]?.getD false).disjSum
      (h.embedded.keys.toFinset.filter fun n => ¬ marks.handles.contains n)))

/-- The number of slots, scopes and handles that are not marked. -/
def unmarked (h : Heap) (scopes : Scopes) (marks : Marks) : Nat := (h.unmarkedNodes scopes marks).card

theorem unmarked_le_nodeCount (h : Heap) (scopes : Scopes) (marks : Marks) :
    h.unmarked scopes marks ≤ h.nodeCount scopes := by
  have slots := Finset.card_filter_le (Finset.range h.slots.size)
    fun i => ¬ marks.objects[i]?.getD false
  have inner := Finset.card_filter_le (Finset.range scopes.size)
    fun i => ¬ marks.scopes[i]?.getD false
  have handles := Finset.card_filter_le h.embedded.keys.toFinset
    fun n => ¬ marks.handles.contains n
  have keys := List.toFinset_card_le h.embedded.keys
  rw [Std.TreeMap.length_keys] at keys
  simp only [Finset.card_range] at slots inner
  simp only [unmarked, unmarkedNodes, nodeCount, Finset.card_disjSum]
  omega

/-- The place of a node in the set of unmarked nodes. -/
def nodeIndex : Node → Nat ⊕ Nat ⊕ Nat
  | .object a => .inl a.index
  | .scope i => .inr (.inl i)
  | .handle n => .inr (.inr n)

theorem nodeIndex_mem_unmarkedNodes {n : Node} (hn : h.hasNode scopes n = true) :
    nodeIndex n ∈ h.unmarkedNodes scopes marks ↔ marks.contains n = false := by
  cases n with
  | object a =>
    obtain ⟨o, ho⟩ := isLive_iff.1 hn
    obtain ⟨hlt, -⟩ := Array.getElem?_eq_some_iff.1 ho
    simp [nodeIndex, unmarkedNodes, Marks.contains, hlt]
  | scope i =>
    have hlt : i < scopes.size := by simpa [hasNode] using hn
    simp [nodeIndex, unmarkedNodes, Marks.contains, hlt]
  | handle n =>
    have hm : n ∈ h.embedded := by simpa [hasNode] using hn
    rw [Bool.eq_false_iff]
    simp [nodeIndex, unmarkedNodes, Marks.contains, hm]

theorem unmarkedNodes_insert_subset (n : Node) :
    h.unmarkedNodes scopes (marks.insert n) ⊆ h.unmarkedNodes scopes marks := by
  have keep : ∀ k, marks.contains k = true → (marks.insert n).contains k = true :=
    fun k hk => Marks.contains_insert_of_contains hk
  intro x hx
  rcases x with i | i | i
  · have := keep (.object ⟨i, 0⟩)
    simp only [unmarkedNodes, Finset.inl_mem_disjSum, Finset.mem_filter] at hx ⊢
    exact ⟨hx.1, fun hm => hx.2 (this hm)⟩
  · have := keep (.scope i)
    simp only [unmarkedNodes, Finset.inr_mem_disjSum, Finset.inl_mem_disjSum, Finset.mem_filter]
      at hx ⊢
    exact ⟨hx.1, fun hm => hx.2 (this hm)⟩
  · have := keep (.handle i)
    simp only [unmarkedNodes, Finset.inr_mem_disjSum, Finset.mem_filter] at hx ⊢
    exact ⟨hx.1, fun hm => hx.2 (this hm)⟩

/-- Marking a node that exists and was not marked leaves fewer unmarked ones. -/
theorem unmarked_insert_lt (hf : h.Fits scopes marks) {n : Node} (hn : h.hasNode scopes n = true)
    (hc : marks.contains n = false) :
    h.unmarked scopes (marks.insert n) < h.unmarked scopes marks := by
  refine Finset.card_lt_card ((Finset.ssubset_iff_of_subset (unmarkedNodes_insert_subset n)).2
    ⟨nodeIndex n, (nodeIndex_mem_unmarkedNodes hn).2 hc, fun hm => ?_⟩)
  rw [nodeIndex_mem_unmarkedNodes hn, contains_insert_self hf hn] at hm
  cases hm

/-- With no unmarked node left, every node that exists is marked. -/
theorem contains_of_unmarked_eq_zero (hz : h.unmarked scopes marks = 0) {n : Node}
    (hn : h.hasNode scopes n = true) : marks.contains n = true := by
  by_contra hc
  have hm : nodeIndex n ∈ h.unmarkedNodes scopes marks :=
    (nodeIndex_mem_unmarkedNodes hn).2 (by simpa using hc)
  rw [Finset.card_eq_zero.1 hz] at hm
  simp at hm

/-! ### The invariant of marking -/

/-- What holds while the nodes `work` wait to be marked. -/
structure Marking (h : Heap) (scopes : Scopes) (roots : List Node) (marks : Marks)
    (work : List Node) : Prop where
  /-- The tables have the right length. -/
  fits : h.Fits scopes marks
  /-- Nothing is marked but what is reachable. -/
  sound : ∀ n, h.hasNode scopes n = true → marks.contains n = true → h.Reaches scopes roots n
  /-- Nothing waits but what is reachable. -/
  waiting : ∀ n ∈ work, h.Reaches scopes roots n
  /-- Roots are marked or wait. -/
  roots : ∀ n ∈ roots ++ h.activeHandles, h.hasNode scopes n = true →
    marks.contains n = true ∨ n ∈ work
  /-- What a marked node leads to is marked or waits. -/
  closed : ∀ n m, h.hasNode scopes n = true → marks.contains n = true →
    m ∈ h.references scopes n → h.hasNode scopes m = true → marks.contains m = true ∨ m ∈ work

theorem mem_activeHandles_iff {n : Node} : n ∈ h.activeHandles ↔
    ∃ floor handle, h.floor = some floor ∧ floor ≤ handle ∧ (h.embedded? handle).isSome ∧
      n = .handle handle := by
  cases hf : h.floor with
  | none => simp [activeHandles, hf]
  | some floor =>
    simp only [activeHandles, hf, List.mem_map, List.mem_filter, Std.TreeMap.mem_keys, embedded?,
      Std.TreeMap.isSome_getElem?_iff_mem, decide_eq_true_eq]
    constructor
    · rintro ⟨handle, ⟨hm, hle⟩, rfl⟩
      exact ⟨floor, handle, rfl, hle, hm, rfl⟩
    · rintro ⟨_, handle, hf, hle, hm, rfl⟩
      cases hf
      exact ⟨handle, ⟨hm, hle⟩, rfl⟩

theorem Marking.start (h : Heap) (scopes : Scopes) (roots : List Node) :
    h.Marking scopes roots (.none h.slots.size scopes.size) (h.activeHandles ++ roots) where
  fits := ⟨by simp [Marks.none], by simp [Marks.none]⟩
  sound n _ hc := by simp at hc
  waiting n hn := by
    rcases List.mem_append.1 hn with hn | hn
    · obtain ⟨floor, handle, hf, hle, hr, rfl⟩ := mem_activeHandles_iff.1 hn
      exact .active hf hle hr
    · exact .root hn
  roots n hn _ := .inr (List.mem_append.2 (List.mem_append.1 hn).symm)
  closed n m _ hc := by simp at hc

/-- Settled nodes can be taken off the list of work. -/
theorem Marking.dropWhile (hm : h.Marking scopes roots marks work) :
    h.Marking scopes roots marks (work.dropWhile (h.isSettled scopes marks)) := by
  have keep : ∀ n, h.hasNode scopes n = true → marks.contains n = true ∨ n ∈ work →
      marks.contains n = true ∨ n ∈ work.dropWhile (h.isSettled scopes marks) := by
    rintro n hn (hc | hw)
    · exact .inl hc
    · rw [← List.takeWhile_append_dropWhile (p := h.isSettled scopes marks) (l := work)] at hw
      rcases List.mem_append.1 hw with hw | hw
      · have settled := List.all_eq_true.1 List.all_takeWhile n hw
        exact .inl (by simpa [isSettled, hn] using settled)
      · exact .inr hw
  exact {
    fits := hm.fits
    sound := hm.sound
    waiting := fun n hn => hm.waiting n ((List.dropWhile_sublist _).mem hn)
    roots := fun n hn he => keep n he (hm.roots n hn he)
    closed := fun n m hn hc hr he => keep m he (hm.closed n m hn hc hr he) }

/-- Marking the first node of the work and putting what it leads to in its place. -/
theorem Marking.step {n : Node} {rest : List Node} (hm : h.Marking scopes roots marks (n :: rest))
    (hn : h.hasNode scopes n = true) :
    h.Marking scopes roots (marks.insert n) (h.references scopes n ++ rest) := by
  have keep : ∀ k, marks.contains k = true ∨ k ∈ n :: rest →
      h.hasNode scopes k = true →
      (marks.insert n).contains k = true ∨ k ∈ h.references scopes n ++ rest := by
    rintro k (hc | hw) hk
    · exact .inl (Marks.contains_insert_of_contains hc)
    · rcases List.mem_cons.1 hw with rfl | hw
      · exact .inl (contains_insert_self hm.fits hn)
      · exact .inr (List.mem_append_right _ hw)
  have reaches : h.Reaches scopes roots n := hm.waiting n List.mem_cons_self
  refine ⟨hm.fits.insert n, fun k hk hc => ?_, fun k hk => ?_, fun k hk he => ?_,
    fun k m hk hc hr he => ?_⟩
  · rcases (contains_insert_iff hm.fits hn hk).1 hc with rfl | hc
    · exact reaches
    · exact hm.sound k hk hc
  · rcases List.mem_append.1 hk with hk | hk
    · exact .step reaches ((mem_references_iff n k).1 hk)
    · exact hm.waiting k (List.mem_cons_of_mem _ hk)
  · exact keep k (hm.roots k hk he) he
  · rcases (contains_insert_iff hm.fits hn hk).1 hc with rfl | hc
    · exact .inr (List.mem_append_left _ hr)
    · exact keep m (hm.closed k m hk hc hr he) he

/-- With as much fuel as there are unmarked nodes, marking ends with no work left. -/
theorem Marking.markFrom {fuel : Nat} (hm : h.Marking scopes roots marks work)
    (hfuel : h.unmarked scopes marks ≤ fuel) :
    h.Marking scopes roots (h.markFrom scopes fuel marks work) [] := by
  induction fuel generalizing marks work with
  | zero =>
    have all := fun n => contains_of_unmarked_eq_zero (n := n) (Nat.le_zero.1 hfuel)
    exact ⟨hm.fits, hm.sound, nofun, fun n _ hn => .inl (all n hn), fun _ m _ _ _ hn => .inl (all m hn)⟩
  | succ fuel ih =>
    have hd := hm.dropWhile
    rw [Heap.markFrom]
    cases hw : work.dropWhile (h.isSettled scopes marks) with
    | nil =>
      rw [hw] at hd
      exact hd
    | cons n rest =>
      rw [hw] at hd
      have unsettled : h.isSettled scopes marks n = false := by
        have := List.head?_dropWhile_not (h.isSettled scopes marks) work
        rw [hw] at this
        exact this
      have hn : h.hasNode scopes n = true ∧ marks.contains n = false := by
        simp only [isSettled, Bool.or_eq_false_iff, Bool.not_eq_false'] at unsettled
        exact ⟨unsettled.2, unsettled.1⟩
      have fewer := unmarked_insert_lt hd.fits hn.1 hn.2
      exact ih (hd.step hn.1) (by omega)

/-- With no work left, everything reachable that exists is marked. -/
theorem Marking.complete (hm : h.Marking scopes roots marks []) {n : Node}
    (hr : h.Reaches scopes roots n) (hn : h.hasNode scopes n = true) :
    marks.contains n = true := by
  induction hr with
  | root hroot => exact (hm.roots _ (List.mem_append_left _ hroot) hn).resolve_right nofun
  | active hf hle hs =>
    have ha := mem_activeHandles_iff.2 ⟨_, _, hf, hle, hs, rfl⟩
    exact (hm.roots _ (List.mem_append_right _ ha) hn).resolve_right nofun
  | @step k m _ he ih =>
    have hk : h.hasNode scopes k = true := by
      cases he with
      | part ho _ => simp [hasNode, isLive, ho]
      | closureScope ho => simp [hasNode, isLive, ho]
      | mention ho _ _ => simp [hasNode, isLive, ho]
      | binding hs _ => exact decide_eq_true (Array.getElem?_eq_some_iff.1 hs).1
      | parent hs _ => exact decide_eq_true (Array.getElem?_eq_some_iff.1 hs).1
      | registered hv =>
        have := Std.TreeMap.mem_iff_isSome_getElem?.2 (Option.isSome_of_eq_some hv)
        simpa [hasNode] using this
    exact (hm.closed k m hk (ih hk) ((mem_references_iff k m).2 he) hn).resolve_right nofun

/-- **Of the nodes that exist, exactly the reachable ones are marked.** -/
theorem contains_mark_iff {n : Node} (hn : h.hasNode scopes n = true) :
    (h.mark scopes roots).contains n = true ↔ h.Reaches scopes roots n := by
  have hm : h.Marking scopes roots (h.mark scopes roots) [] :=
    (Marking.start h scopes roots).markFrom (unmarked_le_nodeCount h scopes _)
  exact ⟨hm.sound n hn, fun hr => hm.complete hr hn⟩

end Heap

end TwinLisp
