import Mathlib.Data.Set.Card
import TwinLisp.Proofs.Heap.Marking

/-!
# Collection is exact

After a collection the heap holds what was reachable and nothing else: reachable objects stay where they
are with the contents they had, all others are gone and their addresses resolve to nothing, and the
table of registered values keeps exactly the reachable handles. No assumption is made about the heap.

## Main statements

* `Heap.get?_sweep` and `Heap.embedded?_sweep`: what sweeping does to one address and to one handle.
* `Heap.collect_exact`: the specification of a collection.
-/

namespace TwinLisp

namespace Heap

variable {h : Heap} {scopes : Scopes} {marks : Marks} {roots : List Node}

/-! ### Sweeping -/

theorem isGarbage_iff {i : Nat} : h.isGarbage marks i = true ↔
    ∃ g o, h.slots[i]? = some ⟨g, some o⟩ ∧ marks.objects[i]?.getD false = false := by
  unfold isGarbage
  cases hs : h.slots[i]? with
  | none => simp
  | some s =>
    obtain ⟨g, o⟩ := s
    cases o <;> simp

/-- An object is still there after sweeping if it is marked. -/
theorem get?_sweep (h : Heap) (marks : Marks) (a : Address) : (h.sweep marks).1.get? a =
    if marks.contains (.object a) then h.get? a else none := by
  simp only [sweep, get?, Array.getElem?_mapIdx, Marks.contains]
  cases hs : h.slots[a.index]? with
  | none => exact (ite_self none).symm
  | some s =>
    obtain ⟨g, o⟩ := s
    simp only [Option.map_some, isGarbage, hs]
    cases o with
    | none => simp
    | some o =>
      cases hm : marks.objects[a.index]?.getD false with
      | true => simp
      | false => simp

/-- A handle is still registered after sweeping if it is marked. -/
theorem embedded?_sweep (h : Heap) (marks : Marks) (handle : Nat) :
    (h.sweep marks).1.embedded? handle =
      if marks.contains (.handle handle) then h.embedded? handle else none := by
  have lookup : (h.sweep marks).1.embedded? handle =
      (h.embedded.filter fun handle _ => marks.handles.contains handle)[handle]? := rfl
  rw [lookup, Std.TreeMap.getElem?_filter', Marks.contains, embedded?]
  cases h.embedded[handle]? with
  | none => simp
  | some v => simp [Option.filter]

/-- The freed slots are the ones to be used next. -/
theorem mem_free_sweep {i : Nat} : i ∈ (h.sweep marks).1.free ↔
    h.isGarbage marks i = true ∨ i ∈ h.free := by
  simp only [sweep, List.mem_append, List.mem_reverse, List.mem_filter, List.mem_range]
  refine or_congr_left ⟨And.right, fun hg => ⟨?_, hg⟩⟩
  obtain ⟨g, o, hs, -⟩ := isGarbage_iff.1 hg
  exact (Array.getElem?_eq_some_iff.1 hs).1

/-- A slot is garbage if it holds a live object that is not marked. -/
theorem isGarbage_iff_exists {i : Nat} : h.isGarbage marks i = true ↔
    ∃ a : Address, a.index = i ∧ h.isLive a = true ∧ marks.contains (.object a) = false := by
  rw [isGarbage_iff]
  constructor
  · rintro ⟨g, o, hs, hm⟩
    exact ⟨⟨i, g⟩, rfl, isLive_iff.2 ⟨o, hs⟩, hm⟩
  · rintro ⟨a, rfl, hl, hm⟩
    obtain ⟨o, ho⟩ := isLive_iff.1 hl
    exact ⟨a.generation, o, ho, hm⟩

/-- The number of freed slots is the number of live objects that were not marked. -/
theorem length_garbage (h : Heap) (marks : Marks) : (h.sweep marks).2 =
    {a : Address | h.isLive a = true ∧ marks.contains (.object a) = false}.ncard := by
  have inj : Set.InjOn Address.index
      {a : Address | h.isLive a = true ∧ marks.contains (.object a) = false} :=
    fun a ha b hb hi => eq_of_isLive ha.1 hb.1 hi
  have image : Address.index '' {a : Address | h.isLive a = true ∧
      marks.contains (.object a) = false} =
      (((List.range h.slots.size).filter (h.isGarbage marks)).toFinset : Finset Nat) := by
    ext i
    simp only [Set.mem_image, Set.mem_ofPred_eq, List.coe_toFinset, List.mem_filter, List.mem_range]
    constructor
    · rintro ⟨a, ⟨hl, hm⟩, rfl⟩
      obtain ⟨o, ho⟩ := isLive_iff.1 hl
      exact ⟨(Array.getElem?_eq_some_iff.1 ho).1, isGarbage_iff_exists.2 ⟨a, rfl, hl, hm⟩⟩
    · rintro ⟨-, hg⟩
      obtain ⟨a, rfl, hl, hm⟩ := isGarbage_iff_exists.1 hg
      exact ⟨a, ⟨hl, hm⟩, rfl⟩
  rw [← inj.ncard_image, image, Set.ncard_coe_finset,
    List.toFinset_card_of_nodup (List.nodup_range.filter _)]
  rfl

theorem sweep_slot (h : Heap) (marks : Marks) (i : Nat) : (h.sweep marks).1.slots[i]? =
    h.slots[i]?.map fun s => if h.isGarbage marks i then ⟨s.generation + 1, none⟩ else s :=
  Array.getElem?_mapIdx

theorem Sound.sweep (hs : h.Sound) (marks : Marks) : (h.sweep marks).1.Sound where
  nodup := by
    refine List.nodup_append'.2 ⟨List.nodup_reverse.2 (List.nodup_range.filter _), hs.nodup, ?_⟩
    intro i hg hf
    obtain ⟨g, hi⟩ := hs.empty_of_mem hf
    obtain ⟨g', o, hi', -⟩ := isGarbage_iff.1 (List.of_mem_filter (List.mem_reverse.1 hg))
    rw [hi] at hi'
    cases hi'
  empty_of_mem {i} hi := by
    rw [sweep_slot]
    by_cases hg : h.isGarbage marks i = true
    · obtain ⟨g, o, hi, -⟩ := isGarbage_iff.1 hg
      exact ⟨g + 1, by rw [hi, Option.map_some, if_pos hg]⟩
    · obtain ⟨g, hi⟩ := hs.empty_of_mem ((mem_free_sweep.1 hi).resolve_left hg)
      exact ⟨g, by rw [hi, Option.map_some, if_neg hg]⟩

theorem Known.sweep {a : Address} (ha : h.Known a) (marks : Marks) : (h.sweep marks).1.Known a := by
  obtain ⟨s, hs, hg⟩ := ha
  refine ⟨_, by rw [sweep_slot, hs, Option.map_some], ?_⟩
  split
  · exact .inl (by simp only; omega)
  · exact hg

/-! ### Collecting -/

/-- A live object is kept by a collection if it can be reached. -/
theorem get?_collect (h : Heap) (scopes : Scopes) (roots : List Node) (a : Address) (o : Object) :
    (h.collect scopes roots).1.get? a = some o ↔
      h.get? a = some o ∧ h.Reaches scopes roots (.object a) := by
  have sweep : (h.collect scopes roots).1.get? a = _ := get?_sweep h (h.mark scopes roots) a
  rw [sweep]
  constructor
  · intro ho
    split at ho
    · next hc =>
      have hn : h.hasNode scopes (.object a) = true := Option.isSome_of_eq_some ho
      exact ⟨ho, (contains_mark_iff hn).1 hc⟩
    · cases ho
  · rintro ⟨ho, hr⟩
    have hn : h.hasNode scopes (.object a) = true := Option.isSome_of_eq_some ho
    rw [if_pos ((contains_mark_iff hn).2 hr), ho]

/-- A registered value is kept by a collection if its handle can be reached. -/
theorem embedded?_collect (h : Heap) (scopes : Scopes) (roots : List Node) (handle : Nat)
    (v : Value) : (h.collect scopes roots).1.embedded? handle = some v ↔
      h.embedded? handle = some v ∧ h.Reaches scopes roots (.handle handle) := by
  have sweep : (h.collect scopes roots).1.embedded? handle = _ :=
    embedded?_sweep h (h.mark scopes roots) handle
  have node : ∀ {w}, h.embedded? handle = some w → h.hasNode scopes (.handle handle) = true :=
    fun hw => by
      have hm : handle ∈ h.embedded :=
        Std.TreeMap.mem_iff_isSome_getElem?.2 (Option.isSome_of_eq_some hw)
      simpa [hasNode] using hm
  rw [sweep]
  constructor
  · intro hv
    split at hv
    · next hc => exact ⟨hv, (contains_mark_iff (node hv)).1 hc⟩
    · cases hv
  · rintro ⟨hv, hr⟩
    rw [if_pos ((contains_mark_iff (node hv)).2 hr), hv]

/-- Whether an object that was live still is. -/
theorem isLive_collect {a : Address} : (h.collect scopes roots).1.isLive a = true ↔
    h.isLive a = true ∧ h.Reaches scopes roots (.object a) := by
  constructor
  · intro hl
    obtain ⟨o, ho⟩ := Option.isSome_iff_exists.1 hl
    obtain ⟨ho, hr⟩ := (get?_collect ..).1 ho
    exact ⟨Option.isSome_of_eq_some ho, hr⟩
  · rintro ⟨hl, hr⟩
    obtain ⟨o, ho⟩ := Option.isSome_iff_exists.1 hl
    exact Option.isSome_of_eq_some ((get?_collect ..).2 ⟨ho, hr⟩)

/-- **A collection keeps exactly what can be reached**: an address resolves afterwards to an object if
it resolved to that object before and the object is reachable; the slots of all other objects are free
to be used again; the returned number counts them; and a handle stands for a value if it did so before
and is reachable. -/
theorem collect_exact (h : Heap) (scopes : Scopes) (roots : List Node) :
    (∀ a o, (h.collect scopes roots).1.get? a = some o ↔
      h.get? a = some o ∧ h.Reaches scopes roots (.object a)) ∧
    (∀ i, i ∈ (h.collect scopes roots).1.free ↔ i ∈ h.free ∨
      ∃ a : Address, a.index = i ∧ h.isLive a = true ∧ ¬ h.Reaches scopes roots (.object a)) ∧
    (h.collect scopes roots).2 =
      {a : Address | h.isLive a = true ∧ (h.collect scopes roots).1.isLive a = false}.ncard ∧
    ∀ handle v, (h.collect scopes roots).1.embedded? handle = some v ↔
      h.embedded? handle = some v ∧ h.Reaches scopes roots (.handle handle) := by
  have marked : ∀ a, h.isLive a = true →
      ((h.mark scopes roots).contains (.object a) = false ↔ ¬ h.Reaches scopes roots (.object a)) := by
    intro a hl
    have node : h.hasNode scopes (.object a) = true := hl
    rw [← contains_mark_iff node, Bool.not_eq_true]
  refine ⟨get?_collect h scopes roots, fun i => ?_, ?_, embedded?_collect h scopes roots⟩
  · have free : i ∈ (h.collect scopes roots).1.free ↔ _ := mem_free_sweep
    rw [free, isGarbage_iff_exists, or_comm]
    refine or_congr_right (exists_congr fun a => and_congr_right fun _ => ?_)
    exact and_congr_right (marked a)
  · have count : (h.collect scopes roots).2 = _ := length_garbage h (h.mark scopes roots)
    rw [count]
    congr 1
    ext a
    refine and_congr_right fun hl => ?_
    rw [marked a hl, ← Bool.not_eq_true, isLive_collect]
    exact ⟨fun hr hc => hr hc.2, fun hc hr => hc ⟨hl, hr⟩⟩

end Heap

end TwinLisp
