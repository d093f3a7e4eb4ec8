import TwinLisp.Proofs.Heap.Exactness

/-!
# The life of an object

An address that a heap gives out stands for the object that was put there, as it was last written, until a
collection does not reach it. From then on it stands for nothing, also when its slot is used again. This
holds whatever else is asked of the heap.

It rests on an account that the heap keeps of its slots: the free list names the empty ones, each once, the
counters tell how many are occupied, and no slot was freed more often than there were collections.

## Main definitions

* `Heap.Request` and `Heap.afterAll`: what is asked of a heap, and what becomes of it.
* `Heap.issued`: the addresses given out on the way.
* `Heap.Spares` and `Heap.lastWritten`: what decides about an object later on.
* `Heap.Accounted`: slots, free list and counters agree.

## Main statements

* `Heap.Accounted.after`: no request upsets the account.
* `Heap.get?_afterAll_of_spares`, `Heap.get?_afterAll_of_not_spares`: how long an address resolves, and to
  what.
* `Heap.addresses_stand`: all of this over the life of a heap.
-/

namespace TwinLisp.Heap

/-! ### Requests -/

/-- What is asked of a heap. -/
inductive Request where
  /-- Put an object on the heap. -/
  | alloc (o : Object)
  /-- Put an object in the place of another one. -/
  | write (a : Address) (o : Object)
  | collect (scopes : Scopes) (roots : List Node)
  /-- Change the number of objects that there may be. -/
  | limit (capacity : Option Nat)
  | embed (v : Value)
  | openEmbedding
  | closeEmbedding

/-- The heap after a request. An object for which there is no room is refused. -/
def after (h : Heap) : Request → Heap
  | .alloc o => (h.alloc? o).elim h (·.1)
  | .write a o => h.set a o
  | .collect scopes roots => (h.collect scopes roots).1
  | .limit capacity => { h with capacity }
  | .embed v => (h.embed v).1
  | .openEmbedding => h.openEmbedding
  | .closeEmbedding => h.closeEmbedding

/-- The heap after some requests. -/
def afterAll (h : Heap) (rs : List Request) : Heap := rs.foldl after h

/-- The address that is given out in answer to a request. -/
def answer? (h : Heap) : Request → Option Address
  | .alloc o => (h.alloc? o).map (·.2)
  | _ => none

/-- All addresses that are given out in answer to some requests. -/
def issued : Heap → List Request → List Address
  | _, [] => []
  | h, r :: rs => (h.answer? r).toList ++ issued (h.after r) rs

/-- The request is no collection, or one that reaches the object. -/
def Keeps (h : Heap) (a : Address) : Request → Prop
  | .collect scopes roots => h.Reaches scopes roots (.object a)
  | _ => True

/-- Every collection among the requests reaches the object. -/
def Spares (a : Address) : Heap → List Request → Prop
  | _, [] => True
  | h, r :: rs => h.Keeps a r ∧ Spares a (h.after r) rs

/-- What an object is after some requests, if nothing reclaims it: what was written to it last. -/
def lastWritten (a : Address) (o : Object) : List Request → Object
  | [] => o
  | .write b p :: rs => lastWritten a (if b = a then p else o) rs
  | _ :: rs => lastWritten a o rs

variable {h : Heap} {a b : Address} {o : Object} {r : Request}

@[simp] theorem afterAll_cons (h : Heap) (r : Request) (rs : List Request) :
    h.afterAll (r :: rs) = (h.after r).afterAll rs := rfl

/-- An allocation either finds the heap full and leaves it alone, or places the object. -/
theorem after_alloc (h : Heap) (o : Object) :
    (h.isFull = true ∧ h.alloc? o = none ∧ h.after (.alloc o) = h) ∨
      (h.isFull = false ∧ h.alloc? o = some (h.place o) ∧ h.after (.alloc o) = (h.place o).1) := by
  cases full : h.isFull with
  | true => simp [after, alloc?, full]
  | false => simp [after, alloc?, full]

/-! ### The account of slots -/

/-- How many slots hold an object. -/
def occupied (h : Heap) : Nat := h.slots.countP (·.object.isSome)

/-- The free list names the empty slots, the counters fit the slots, and none was freed more often than there
were collections. -/
structure Accounted (h : Heap) : Prop extends h.Sound where
  mem_of_empty {i : Nat} {g : Nat} : h.slots[i]? = some ⟨g, none⟩ → i ∈ h.free
  live : h.stats.live = h.occupied
  balance : h.stats.live + h.stats.freed = h.stats.allocated
  size_le : h.slots.size ≤ h.stats.allocated
  generation_le {i : Nat} {s : Slot} : h.slots[i]? = some s → s.generation ≤ h.stats.collections

theorem accounted_empty (capacity : Option Nat) : (empty capacity).Accounted where
  toSound := sound_empty capacity
  mem_of_empty hi := by simp [empty] at hi
  live := rfl
  balance := rfl
  size_le := Nat.le_refl 0
  generation_le hs := by simp [empty] at hs

/-- What is said about slots, free list and counters is said about nothing else. -/
theorem Accounted.congr {k : Heap} (hh : h.Accounted) (slots : k.slots = h.slots) (free : k.free = h.free)
    (stats : k.stats = h.stats) : k.Accounted := by
  obtain ⟨⟨nodup, empty⟩, mem, live, balance, size, generations⟩ := hh
  exact ⟨⟨free ▸ nodup, fun hi => slots ▸ empty (free ▸ hi)⟩, fun hi => free ▸ mem (slots ▸ hi),
    by rw [stats, live, occupied, occupied, slots], stats ▸ balance, slots ▸ stats ▸ size,
    fun hs => stats ▸ generations (slots ▸ hs)⟩

/-! #### Allocating -/

@[simp] theorem place_stats (h : Heap) (o : Object) : (h.place o).1.stats =
    { h.stats with allocated := h.stats.allocated + 1, live := h.stats.live + 1 } := by
  cases hf : h.free <;> simp [place, countAllocation, hf]

/-- A slot that changes from empty to occupied counts once more. -/
theorem occupied_place (hs : h.Sound) (o : Object) : (h.place o).1.occupied = h.occupied + 1 := by
  rcases h.place_cases o hs with ⟨i, free, g, -, hg, -, -, hslots⟩ | ⟨-, -, -, hslots⟩
  · obtain ⟨lt, hi⟩ := Array.getElem?_eq_some_iff.1 hg
    rw [occupied, hslots, Array.setIfInBounds, dif_pos lt, Array.countP_set lt, hi]
    simp [occupied]
  · rw [occupied, hslots, Array.countP_push]
    simp [occupied]

theorem Accounted.place (hh : h.Accounted) (o : Object) : (h.place o).1.Accounted where
  toSound := hh.toSound.place o
  mem_of_empty {i g} hi := by
    rw [place_slot h o hh.toSound] at hi
    split at hi
    · cases hi
    · next hne =>
      have before := hh.mem_of_empty hi
      rcases h.place_cases o hh.toSound with ⟨j, free, _, hf, -, ha, hfree, -⟩ | ⟨hf, -⟩
      · rw [hfree]
        rw [hf, List.mem_cons] at before
        rw [ha] at hne
        exact before.resolve_left hne
      · rw [hf] at before
        cases before
  live := by rw [place_stats, occupied_place hh.toSound, hh.live]
  balance := by
    have := hh.balance
    simp only [place_stats]
    omega
  size_le := by
    have := hh.size_le
    rw [place_stats]
    rcases h.place_cases o hh.toSound with ⟨_, _, _, _, _, _, _, hslots⟩ | ⟨_, _, _, hslots⟩
    · simp only [hslots, Array.size_setIfInBounds]
      omega
    · simp only [hslots, Array.size_push]
      omega
  generation_le {i s} hs := by
    rw [place_stats]
    rw [place_slot h o hh.toSound] at hs
    split at hs
    · -- The slot goes on with the generation that it had while it was empty, or begins with none.
      cases hs
      rcases h.place_slot_before o hh.toSound with ⟨g, hg, hgen⟩ | hnone
      · have before := hh.generation_le hg
        rw [← hgen] at before
        exact before
      · rcases h.place_cases o hh.toSound with ⟨_, _, _, _, hg, ha, _⟩ | ⟨_, ha, _⟩
        · rw [ha, hg] at hnone
          cases hnone
        · rw [ha]
          exact Nat.zero_le _
    · exact hh.generation_le hs

/-- There was room for an object that was taken in. -/
theorem live_place_le (room : h.isFull = false) {c : Nat}
    (hc : h.capacity = some c) : (h.place o).1.stats.live ≤ c := by
  simp only [isFull, hc, Option.any_some, decide_eq_false_iff_not, Nat.not_le] at room
  simpa using room

/-! #### Writing -/

/-- The occupied slots, counted by their numbers. -/
theorem occupied_eq_countP (h : Heap) :
    h.occupied = (List.range h.slots.size).countP fun i => h.slots[i]?.any (·.object.isSome) := by
  have slots : h.slots.toList.map some = (List.range h.slots.size).map (h.slots[·]?) := by
    apply List.ext_getElem?
    intro i
    by_cases hi : i < h.slots.size <;> simp [hi]
  have count := congrArg (List.countP fun s : Option Slot => s.any (·.object.isSome)) slots
  simp only [List.countP_map, Function.comp_def, Option.any_some] at count
  rw [occupied, ← Array.countP_toList, count]

theorem occupied_set (h : Heap) (a : Address) (o : Object) : (h.set a o).occupied = h.occupied := by
  rw [occupied_eq_countP, occupied_eq_countP]
  have size : (h.set a o).slots.size = h.slots.size := by simp [Heap.set]
  rw [size]
  apply List.countP_congr
  intro i _
  rw [set_slot]
  -- Only a slot that holds something is written to.
  rcases h.slots[i]? with _ | s
  · rfl
  · simp only [Option.map_some, Option.any_some]
    split <;> simp_all

theorem Accounted.set (hh : h.Accounted) (a : Address) (o : Object) : (h.set a o).Accounted where
  toSound := hh.toSound.set a o
  mem_of_empty {i g} hi := by
    rw [set_slot, Option.map_eq_some_iff] at hi
    obtain ⟨s, hs, e⟩ := hi
    split at e
    · cases e
    · exact hh.mem_of_empty (e ▸ hs)
  live := by
    rw [occupied_set]
    exact hh.live
  balance := hh.balance
  size_le := by simpa [Heap.set] using hh.size_le
  generation_le {i s} hs := by
    rw [set_slot, Option.map_eq_some_iff] at hs
    obtain ⟨t, ht, rfl⟩ := hs
    have := hh.generation_le ht
    split <;> exact this

/-! #### Collecting -/

/-- Every slot that was occupied is occupied still or was swept. -/
theorem occupied_sweep (h : Heap) (marks : Marks) :
    (h.sweep marks).1.occupied + (h.sweep marks).2 = h.occupied := by
  rw [occupied_eq_countP, occupied_eq_countP]
  have size : (h.sweep marks).1.slots.size = h.slots.size := by simp [sweep]
  have swept : (h.sweep marks).2 = (List.range h.slots.size).countP (h.isGarbage marks) :=
    List.countP_eq_length_filter.symm
  rw [size, swept]
  induction List.range h.slots.size with
  | nil => rfl
  | cons i is ih =>
    simp only [List.countP_cons]
    -- One slot is occupied afterwards, or it was swept, or it was empty before.
    have slot : (if (h.sweep marks).1.slots[i]?.any (·.object.isSome) then 1 else 0) +
        (if h.isGarbage marks i then 1 else 0) =
        if h.slots[i]?.any (·.object.isSome) then 1 else 0 := by
      rw [sweep_slot, isGarbage]
      rcases h.slots[i]? with _ | s
      · rfl
      · obtain ⟨g, _ | o⟩ := s
        · rfl
        · cases marks.objects[i]?.getD false <;> rfl
    omega

theorem Accounted.sweep (hh : h.Accounted) (marks : Marks) : (h.sweep marks).1.Accounted where
  toSound := hh.toSound.sweep marks
  mem_of_empty {i g} hi := by
    rw [mem_free_sweep]
    rw [sweep_slot, Option.map_eq_some_iff] at hi
    obtain ⟨s, hs, e⟩ := hi
    split at e
    · next garbage => exact .inl garbage
    · exact .inr (hh.mem_of_empty (e ▸ hs))
  live := by
    show h.stats.live - (h.sweep marks).2 = _
    rw [hh.live, ← occupied_sweep h marks, Nat.add_sub_cancel]
  balance := by
    show h.stats.live - (h.sweep marks).2 + (h.stats.freed + (h.sweep marks).2) = h.stats.allocated
    have := occupied_sweep h marks
    have := hh.live
    have := hh.balance
    omega
  size_le := by simpa [Heap.sweep] using hh.size_le
  generation_le {i s} hs := by
    show s.generation ≤ h.stats.collections + 1
    rw [sweep_slot, Option.map_eq_some_iff] at hs
    obtain ⟨t, ht, rfl⟩ := hs
    have before := hh.generation_le ht
    split
    · exact Nat.succ_le_succ before
    · exact Nat.le_succ_of_le before

/-- No request upsets the account. -/
theorem Accounted.after (hh : h.Accounted) (r : Request) : (h.after r).Accounted := by
  cases r with
  | alloc o =>
    rcases h.after_alloc o with ⟨-, -, e⟩ | ⟨-, -, e⟩
    · rw [e]
      exact hh
    · rw [e]
      exact hh.place o
  | write a o => exact hh.set a o
  | collect scopes roots => exact hh.sweep _
  | limit capacity => exact hh.congr rfl rfl rfl
  | embed v => exact hh.congr rfl rfl rfl
  | openEmbedding => exact hh.congr rfl rfl rfl
  | closeEmbedding => exact hh.congr rfl rfl rfl

theorem Accounted.afterAll (hh : h.Accounted) (rs : List Request) : (h.afterAll rs).Accounted := by
  induction rs generalizing h with
  | nil => exact hh
  | cons r rs ih => exact ih (hh.after r)

/-- The free list names the empty slots and no others. -/
theorem Accounted.mem_free_iff (hh : h.Accounted) {i : Nat} :
    i ∈ h.free ↔ ∃ g, h.slots[i]? = some ⟨g, none⟩ :=
  ⟨hh.empty_of_mem, fun ⟨_, hi⟩ => hh.mem_of_empty hi⟩

/-! ### Addresses -/

/-- An address that was given out has a slot number and a generation within the counts. -/
theorem Accounted.known_le (hh : h.Accounted) (ha : h.Known a) :
    a.index < h.stats.allocated ∧ a.generation ≤ h.stats.collections := by
  obtain ⟨s, hs, hg⟩ := ha
  have index := (Array.getElem?_eq_some_iff.1 hs).1
  have := hh.size_le
  have := hh.generation_le hs
  omega

theorem Known.after (hh : h.Accounted) (ha : h.Known a) (r : Request) : (h.after r).Known a := by
  cases r with
  | alloc o =>
    rcases h.after_alloc o with ⟨-, -, e⟩ | ⟨-, -, e⟩
    · rw [e]
      exact ha
    · rw [e]
      exact ha.place o hh.toSound
  | write b o => exact ha.set b o
  | collect scopes roots => exact ha.sweep _
  | limit capacity => exact ha
  | embed v => exact ha
  | openEmbedding => exact ha
  | closeEmbedding => exact ha

theorem Known.afterAll (hh : h.Accounted) (ha : h.Known a) (rs : List Request) :
    (h.afterAll rs).Known a := by
  induction rs generalizing h with
  | nil => exact ha
  | cons r rs ih => exact ih (hh.after r) (ha.after hh r)

/-- An address is given out when an object is placed, and then it is known. -/
theorem known_of_answer? (hh : h.Accounted) (ha : h.answer? r = some a) : (h.after r).Known a := by
  cases r with
  | alloc o =>
    rcases h.after_alloc o with ⟨-, refused, -⟩ | ⟨-, placed, e⟩
    · simp [answer?, refused] at ha
    · simp only [answer?, placed, Option.map_some, Option.some.injEq] at ha
      rw [e, ← ha]
      exact known_of_get? (h.get?_place_self o hh.toSound)
  | _ => cases ha

theorem known_of_mem_issued (hh : h.Accounted) {rs : List Request} (ha : a ∈ h.issued rs) :
    (h.afterAll rs).Known a := by
  induction rs generalizing h with
  | nil => cases ha
  | cons r rs ih =>
    rcases List.mem_append.1 ha with now | later
    · exact (known_of_answer? hh (Option.mem_toList.1 now)).afterAll (hh.after r) rs
    · exact ih (hh.after r) later

/-- As many addresses are given out as objects are counted. -/
theorem allocated_after (h : Heap) (r : Request) :
    (h.after r).stats.allocated = h.stats.allocated + (h.answer? r).toList.length := by
  cases r with
  | alloc o =>
    rcases h.after_alloc o with ⟨-, refused, e⟩ | ⟨-, placed, e⟩
    · simp [answer?, refused, e]
    · simp [answer?, placed, e]
  | _ => rfl

theorem allocated_afterAll (h : Heap) (rs : List Request) :
    (h.afterAll rs).stats.allocated = h.stats.allocated + (h.issued rs).length := by
  induction rs generalizing h with
  | nil => rfl
  | cons r rs ih =>
    rw [afterAll_cons, ih, allocated_after, issued, List.length_append, Nat.add_assoc]

/-! ### What an address stands for -/

/-- What an address stands for is changed by nothing but a write to it, as long as it is kept. -/
theorem get?_after (hh : h.Accounted) (ha : h.Known a) (kept : h.Keeps a r) :
    (h.after r).get? a = (h.get? a).map fun o => lastWritten a o [r] := by
  have same : h.get? a = (h.get? a).map fun o => o := by simp
  cases r with
  | alloc o =>
    rcases h.after_alloc o with ⟨-, -, e⟩ | ⟨-, -, e⟩
    · rw [e]
      exact same
    · rw [e, get?_place_of_known o hh.toSound ha]
      exact same
  | write b o =>
    show (h.set b o).get? a = _
    rw [get?_set]
    by_cases e : a = b
    · simp [lastWritten, e]
    · rw [if_neg e]
      simp [lastWritten, Ne.symm e]
  | collect scopes roots =>
    refine Eq.trans (Option.ext fun o => ?_) same
    show (h.collect scopes roots).1.get? a = some o ↔ _
    rw [get?_collect]
    exact and_iff_left kept
  | limit capacity => exact same
  | embed v => exact same
  | openEmbedding => exact same
  | closeEmbedding => exact same

theorem get?_after_of_not_keeps (lost : ¬ h.Keeps a r) : (h.after r).get? a = none := by
  cases r with
  | collect scopes roots =>
    apply Option.eq_none_iff_forall_ne_some.2
    intro o ho
    exact lost ((get?_collect ..).1 ho).2
  | _ => exact absurd trivial lost

/-- An address that stands for nothing never stands for anything again. -/
theorem get?_afterAll_of_none (hh : h.Accounted) (ha : h.Known a) (gone : h.get? a = none)
    (rs : List Request) : (h.afterAll rs).get? a = none := by
  induction rs generalizing h with
  | nil => exact gone
  | cons r rs ih =>
    refine ih (hh.after r) (ha.after hh r) ?_
    by_cases kept : h.Keeps a r
    · rw [get?_after hh ha kept, gone]
      rfl
    · exact get?_after_of_not_keeps kept

theorem lastWritten_cons (a : Address) (o : Object) (r : Request) (rs : List Request) :
    lastWritten a o (r :: rs) = lastWritten a (lastWritten a o [r]) rs := by
  cases r <;> rfl

/-- An address resolves, to what was written last, as long as every collection reaches it. -/
theorem get?_afterAll_of_spares (hh : h.Accounted) (ho : h.get? a = some o) {rs : List Request}
    (spared : Spares a h rs) : (h.afterAll rs).get? a = some (lastWritten a o rs) := by
  induction rs generalizing h o with
  | nil => exact ho
  | cons r rs ih =>
    have next := get?_after hh (known_of_get? ho) spared.1
    rw [ho, Option.map_some] at next
    rw [lastWritten_cons]
    exact ih (hh.after r) next spared.2

/-- From the first collection on that did not reach it, an address does not resolve. -/
theorem get?_afterAll_of_not_spares (hh : h.Accounted) (ha : h.Known a) {rs : List Request}
    (lost : ¬ Spares a h rs) : (h.afterAll rs).get? a = none := by
  induction rs generalizing h with
  | nil => exact absurd trivial lost
  | cons r rs ih =>
    by_cases kept : h.Keeps a r
    · exact ih (hh.after r) (ha.after hh r) fun later => lost ⟨kept, later⟩
    · exact get?_afterAll_of_none (hh.after r) (ha.after hh r) (get?_after_of_not_keeps kept) rs

/-- **Addresses never change their meaning.** Whatever was asked of a heap, the free list names its empty
slots, each once; what is there and what was reclaimed make up what was allocated, one address for each, and
what is there is what the slots hold; the numbers in an address are bounded by the counts of allocations and
of collections; and two objects never share a slot. When another object is to be put there, a full heap
refuses it and is not changed. Otherwise no more objects are there than may be, the address is one that was
not given out before, and whatever is asked then, it stands for the object, as written last, until a
collection does not reach it, and for nothing from then on. -/
theorem addresses_stand (capacity : Option Nat) (past : List Request) :
    let h := (empty capacity).afterAll past
    (h.free.Nodup ∧ ∀ i, i ∈ h.free ↔ ∃ g, h.slots[i]? = some ⟨g, none⟩) ∧
    (h.stats.live + h.stats.freed = h.stats.allocated ∧
      h.stats.allocated = ((empty capacity).issued past).length ∧
      h.stats.live = h.slots.countP (·.object.isSome)) ∧
    (∀ a ∈ (empty capacity).issued past,
      a.index < h.stats.allocated ∧ a.generation ≤ h.stats.collections) ∧
    (∀ a b, h.isLive a = true → h.isLive b = true → a.index = b.index → a = b) ∧
    ∀ o,
      (h.answer? (.alloc o) = none → h.isFull = true ∧ h.after (.alloc o) = h) ∧
      ∀ a, h.answer? (.alloc o) = some a →
        (∀ c, h.capacity = some c → (h.after (.alloc o)).stats.live ≤ c) ∧
        a ∉ (empty capacity).issued past ∧
        ∀ future,
          (Spares a (h.after (.alloc o)) future →
            ((h.after (.alloc o)).afterAll future).get? a = some (lastWritten a o future)) ∧
          (¬ Spares a (h.after (.alloc o)) future →
            ((h.after (.alloc o)).afterAll future).get? a = none) := by
  intro h
  have accounted : h.Accounted := (accounted_empty capacity).afterAll past
  have known {a} (ha : a ∈ (empty capacity).issued past) : h.Known a :=
    known_of_mem_issued (accounted_empty capacity) ha
  refine ⟨⟨accounted.nodup, fun _ => accounted.mem_free_iff⟩, ⟨accounted.balance, ?_, accounted.live⟩,
    fun a ha => accounted.known_le (known ha), fun a b => eq_of_isLive, fun o => ?_⟩
  · rw [allocated_afterAll]
    exact Nat.zero_add _
  rcases h.after_alloc o with ⟨full, refused, e⟩ | ⟨room, placed, e⟩
  · refine ⟨fun _ => ⟨full, e⟩, fun a ha => ?_⟩
    simp [answer?, refused] at ha
  · have placed : h.answer? (.alloc o) = some (h.place o).2 := by simp [answer?, placed]
    rw [placed, e]
    refine ⟨fun refused => (by cases refused), ?_⟩
    rintro a ⟨⟩
    have there := h.get?_place_self o accounted.toSound
    refine ⟨fun c => live_place_le room, fun ha => h.not_known_place o accounted.toSound (known ha),
      fun future => ⟨?_, ?_⟩⟩
    · exact get?_afterAll_of_spares (accounted.place o) there
    · exact get?_afterAll_of_not_spares (accounted.place o) (known_of_get? there)

end TwinLisp.Heap
