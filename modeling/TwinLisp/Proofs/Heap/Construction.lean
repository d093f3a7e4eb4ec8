import TwinLisp.Library.HigherOrder
import TwinLisp.Proofs.Engine.Reachable
import TwinLisp.Proofs.Heap.Equality

/-!
# Data that sessions construct

Whatever is asked of a session by someone who only hands in what is there, its heap is orderly: maps and sets
are made and updated under the keys of what is put into them. So on every heap that comes about in this way,
equality and keys tell the same values apart.

## Main definitions

* `Eval.Reads`: a computation that leaves the session as it is.
* `Heap.Assembles`: what can be put together from what is on a heap.
* `Session.Operation`, `Session.Step` and `Session.Operated`: what is asked of sessions, and the sessions that
  come about.

## Main statements

* `Session.Operation.keepsOrder`, `Session.Operated.orderly`: heaps stay orderly.
* `Session.Operated.equality_agrees_with_keys`: equality is an equivalence, and it is sameness of keys.
-/

namespace TwinLisp

/-! ### Computations that only read -/

/-- The computation leaves the session as it is, and its results satisfy `Q`. -/
def Eval.Reads {α : Type} (x : Eval α) (s : Session) (Q : α → Prop) : Prop :=
  match x s with
  | .ok a t => t = s ∧ Q a
  | .error _ t => t = s

namespace Eval.Reads

variable {α β : Type} {s : Session} {x : Eval α} {Q Q' : α → Prop} {R : β → Prop}

theorem pure {a : α} (h : Q a) : Reads (Pure.pure a : Eval α) s Q := ⟨rfl, h⟩

theorem fail (f : Fault) : Reads (Eval.fail f : Eval α) s Q := rfl

theorem failAt (i : Nat) (cause : Cause) : Reads (Eval.failAt i cause : Eval α) s Q := rfl

theorem bind {f : α → Eval β} (hx : Reads x s Q) (hf : ∀ a, Q a → Reads (f a) s R) :
    Reads (x >>= f) s R := by
  unfold Reads at hx
  split at hx
  · next a t h =>
    obtain ⟨rfl, ha⟩ := hx
    have next := hf a ha
    unfold Reads at next ⊢
    rwa [Eval.bind_eq_of_ok h]
  · next e t h =>
    obtain rfl := hx
    unfold Reads
    rw [Eval.bind_eq_of_error h]

theorem imp (hx : Reads x s Q) (hQ : ∀ a, Q a → Q' a) : Reads x s Q' := by
  unfold Reads at hx ⊢
  split at hx
  · exact ⟨hx.1, hQ _ hx.2⟩
  · exact hx

/-- A result is made from one item after the other. -/
theorem foldlM {f : α → β → Eval α} {bs : List β} {a : α} (ha : Q a)
    (hf : ∀ a b, Q a → b ∈ bs → Reads (f a b) s Q) : Reads (bs.foldlM f a) s Q := by
  induction bs generalizing a with
  | nil => exact pure ha
  | cons b bs ih =>
    rw [List.foldlM_cons]
    refine (hf a b ha (List.mem_cons_self ..)).bind fun a' ha' => ?_
    exact ih ha' fun a b ha hb => hf a b ha (List.mem_cons_of_mem _ hb)

/-- The key of a value. -/
theorem keyOf (s : Session) (v : Value) : Reads (Eval.keyOf v) s fun k => s.heap.HasKey v k := by
  show Reads (Eval.resolving (s.heap.key v)) s _
  cases hk : s.heap.key v with
  | ok k => exact pure ⟨_, hk⟩
  | error a => rfl

theorem object (s : Session) (a : Address) : Reads (Eval.object a) s fun o => s.heap.get? a = some o := by
  cases ho : s.heap.get? a with
  | some o =>
    unfold Reads
    rw [Eval.object_eq_of_get? ho]
    exact ⟨rfl, rfl⟩
  | none =>
    unfold Reads
    rw [Eval.object_eq_of_none ho]

variable (hs : s.heap.Orderly)
include hs

theorem map? (v : Value) :
    Reads (Eval.map? v) s fun m => s.heap.Accepts (.map (m.getD .empty)) := by
  unfold Eval.map?
  split
  · refine (object s _).bind fun o ho => ?_
    split
    · exact pure (hs.accepts ho)
    · exact pure Heap.accepts_map_empty
  · exact pure Heap.accepts_map_empty

theorem set? (v : Value) :
    Reads (Eval.set? v) s fun m => s.heap.Accepts (.set (m.getD .empty)) := by
  unfold Eval.set?
  split
  · refine (object s _).bind fun o ho => ?_
    split
    · exact pure (hs.accepts ho)
    · exact pure Heap.accepts_set_empty
  · exact pure Heap.accepts_set_empty

theorem items? (v : Value) : Reads (Eval.items? v) s fun items => ∀ c ∈ items.getD [], s.heap.Holds c := by
  unfold Eval.items?
  split
  · refine (object s _).bind fun o ho => ?_
    split
    · exact pure (hs.accepts ho).holds
    · exact pure (hs.accepts ho).holds
    · exact pure (by simp)
  · refine (object s _).bind fun o ho => ?_
    split
    · exact pure (hs.accepts ho).holds
    · exact pure (hs.accepts ho).holds
    · exact pure (by simp)
  · exact pure (by simp)

omit hs in
/-- Entries are put into a map under the keys of their keys. -/
theorem insertEntries {m : OrderedMap} {entries : List (Value × Value)} (hm : s.heap.Accepts (.map m))
    (he : ∀ e ∈ entries, s.heap.Holds e.1 ∧ s.heap.Holds e.2) :
    Reads (Eval.insertEntries m entries) s fun m => s.heap.Accepts (.map m) := by
  refine foldlM hm fun m e hm hmem => (keyOf s e.1).bind fun k hk => ?_
  exact pure (hm.insert (he e hmem).1 (he e hmem).2 hk)

omit hs in
/-- Members are put into a set under their keys. -/
theorem insertMembers {c : OrderedSet} {members : List Value} (hc : s.heap.Accepts (.set c))
    (hm : ∀ v ∈ members, s.heap.Holds v) :
    Reads (Eval.insertMembers c members) s fun c => s.heap.Accepts (.set c) := by
  refine foldlM hc fun c v hc hmem => (keyOf s v).bind fun k hk => ?_
  exact pure (hc.insertIfNew (hm v hmem) hk)

/-- What an argument contributes to a map. -/
theorem addEntry {m : OrderedMap} {entry : Value} (hm : s.heap.Accepts (.map m)) (i : Nat) :
    Reads (Library.addEntry m i entry) s fun m => s.heap.Accepts (.map m) := by
  unfold Library.addEntry
  split
  · refine (items? hs _).bind fun items hi => ?_
    split
    · exact insertEntries hm (by simpa using hi)
    · exact failAt ..
  · refine (map? hs _).bind fun n hn => insertEntries hm fun e he => ?_
    have parts := Object.mem_contents_map he
    exact ⟨hn.holds _ parts.1, hn.holds _ parts.2⟩
  · exact pure hm
  · exact failAt ..

omit hs in
theorem replaceItems {items : List Value} {pairs : List (Value × Value)} (i : Nat)
    (hi : ∀ c ∈ items, s.heap.Holds c) (hp : ∀ e ∈ pairs, s.heap.Holds e.2) :
    Reads (Library.replaceItems items i pairs) s fun items => ∀ c ∈ items, s.heap.Holds c := by
  induction pairs generalizing items i with
  | nil => exact pure hi
  | cons e pairs ih =>
    obtain ⟨key, v⟩ := e
    have hv : s.heap.Holds v := hp _ (List.mem_cons_self ..)
    have rest : ∀ e ∈ pairs, s.heap.Holds e.2 := fun e he => hp e (List.mem_cons_of_mem _ he)
    unfold Library.replaceItems
    split
    · dsimp only
      split
      · exact failAt ..
      · split
        · refine ih _ (fun c hc => ?_) rest
          rcases List.mem_append.1 hc with hc | hc
          · exact hi c hc
          · exact List.mem_singleton.1 hc ▸ hv
        · refine ih _ (fun c hc => ?_) rest
          rcases List.mem_or_eq_of_mem_set hc with hc | rfl
          · exact hi c hc
          · exact hv
    · exact failAt ..

end Eval.Reads

/-! ### Computations that keep the heap orderly -/

/-- The computation leaves an orderly heap. -/
def Eval.KeepsOrder {α : Type} (x : Eval α) (s : Session) : Prop :=
  match x s with
  | .ok _ t => t.heap.Orderly
  | .error _ t => t.heap.Orderly

namespace Eval

variable {α β : Type} {s t : Session} {x : Eval α} {Q : α → Prop}

theorem KeepsOrder.returns (hx : x.KeepsOrder s) (returns : x.Returns s t) : t.heap.Orderly := by
  unfold KeepsOrder at hx
  obtain ⟨a, h⟩ | ⟨f, h⟩ := returns
  · rwa [h] at hx
  · rwa [h] at hx

theorem Reads.keepsOrder (hx : x.Reads s Q) (hs : s.heap.Orderly) : x.KeepsOrder s := by
  unfold Reads at hx
  unfold KeepsOrder
  split at hx
  · exact hx.1 ▸ hs
  · exact hx ▸ hs

theorem Reads.bindKeepsOrder {f : α → Eval β} (hx : x.Reads s Q) (hs : s.heap.Orderly)
    (hf : ∀ a, Q a → (f a).KeepsOrder s) : (x >>= f).KeepsOrder s := by
  unfold Reads at hx
  split at hx
  · next a t h =>
    obtain ⟨rfl, ha⟩ := hx
    have next := hf a ha
    unfold KeepsOrder at next ⊢
    rwa [Eval.bind_eq_of_ok h]
  · next e t h =>
    obtain rfl := hx
    unfold KeepsOrder
    rw [Eval.bind_eq_of_error h]
    exact hs

/-- A new object that fits in. -/
theorem KeepsOrder.alloc {o : Object} (hs : s.heap.Orderly) (ho : s.heap.Accepts o) :
    (Eval.alloc o).KeepsOrder s := by
  have alive : Eval.checkAlive.Reads s fun _ => True := by
    unfold Eval.checkAlive
    show Eval.Reads (if s.terminated then _ else _) s _
    split
    · exact .fail _
    · exact .pure trivial
  refine alive.bindKeepsOrder hs fun _ _ => ?_
  unfold KeepsOrder
  by_cases full : s.heap.isFull = true
  · simp only [full, if_true]
    exact hs.congr rfl rfl
  · simp only [full]
    exact hs.place ho

theorem KeepsOrder.new {o : Object} (hs : s.heap.Orderly) (ho : s.heap.Accepts o) :
    (Eval.new o).KeepsOrder s := by
  have placed := KeepsOrder.alloc hs ho
  unfold KeepsOrder at placed ⊢
  have unfolded : Eval.new o = Eval.alloc o >>= fun a => Pure.pure (.ref o.kind a) := rfl
  rw [unfolded]
  cases h : Eval.alloc o s with
  | ok a t =>
    rw [h] at placed
    rw [Eval.bind_eq_of_ok h]
    exact placed
  | error e t =>
    rw [h] at placed
    rw [Eval.bind_eq_of_error h]
    exact placed

theorem Reads.thenNew {f : α → Object} (hx : x.Reads s fun a => s.heap.Accepts (f a))
    (hs : s.heap.Orderly) : (x >>= fun a => Eval.new (f a)).KeepsOrder s :=
  hx.bindKeepsOrder hs fun _ ha => .new hs ha

end Eval

/-! ### Operations -/

namespace Heap

/-- The objects that can be put together from what is on the heap. Maps and sets begin empty, or with what is
on the heap, and then grow under the keys of what is put into them. -/
inductive Assembles (h : Heap) : Object → Prop where
  | str (s : String) : Assembles h (.str s)
  | function (f : Function) : Assembles h (.function f)
  | atom (v : Value) : Assembles h (.atom v)
  | host (typeName : String) : Assembles h (.host typeName)
  | list {items : List Value} (holds : ∀ v ∈ items, h.Holds v) (l : Location) : Assembles h (.list items l)
  | vector {items : List Value} (holds : ∀ v ∈ items, h.Holds v) (l : Location) :
    Assembles h (.vector items l)
  | found {a : Address} {o : Object} (ho : h.get? a = some o) : Assembles h o
  | emptyMap : Assembles h (.map .empty)
  | assoc {m : OrderedMap} {v w : Value} {k : Key} (hm : Assembles h (.map m)) (hv : h.Holds v)
    (hw : h.Holds w) (hk : h.key v = .ok k) : Assembles h (.map (m.insert k (v, w)))
  | dissoc {m : OrderedMap} (hm : Assembles h (.map m)) (k : Key) : Assembles h (.map (m.erase k))
  | emptySet : Assembles h (.set .empty)
  | conj {s : OrderedSet} {v : Value} {k : Key} (hs : Assembles h (.set s)) (hv : h.Holds v)
    (hk : h.key v = .ok k) : Assembles h (.set (s.insertIfNew k v))
  | disj {s : OrderedSet} (hs : Assembles h (.set s)) (k : Key) : Assembles h (.set (s.erase k))

/-- What is put together from what is on an orderly heap fits in there. -/
theorem Assembles.accepts {h : Heap} {o : Object} (hh : h.Orderly) (ho : h.Assembles o) : h.Accepts o := by
  induction ho with
  | str | function | atom | host => exact accepts_of_contents rfl fun _ => rfl
  | list holds l => exact accepts_list holds l
  | vector holds l => exact accepts_vector holds l
  | found ho => exact hh.accepts ho
  | emptyMap => exact accepts_map_empty
  | assoc _ hv hw hk ih => exact ih.insert hv hw ⟨_, hk⟩
  | dissoc _ k ih => exact ih.erase k
  | emptySet => exact accepts_set_empty
  | conj _ hv hk ih => exact ih.insertIfNew hv ⟨_, hk⟩
  | disj _ k ih => exact ih.eraseMember k

end Heap

namespace Session

open Library

/-- What may be asked of a session by someone who hands in what is there. -/
inductive Operation (s : Session) : {α : Type} → Eval α → Prop where
  | new {o : Object} (ho : s.heap.Assembles o) : Operation s (Eval.new o)
  | newMap {entries : List (Value × Value)} (h : ∀ e ∈ entries, s.heap.Holds e.1 ∧ s.heap.Holds e.2) :
    Operation s (Eval.newMap entries)
  | newSet {members : List Value} (h : ∀ v ∈ members, s.heap.Holds v) : Operation s (Eval.newSet members)
  | conj {args : List Value} (h : ∀ v ∈ args, s.heap.Holds v) : Operation s (Library.conj args)
  | assoc {args : List Value} (h : ∀ v ∈ args, s.heap.Holds v) : Operation s (Library.assoc args)
  | dissoc (args : List Value) : Operation s (Library.dissoc args)
  | writeAtom (a : Address) (v : Value) : Operation s (Library.writeAtom a v)

/-- What may happen to a session: an operation returns, objects that are not needed are reclaimed, or
something happens outside of the heap. -/
inductive Step (s : Session) : Session → Prop where
  | ran {α : Type} {x : Eval α} {t : Session} (asked : Operation s x) (returns : x.Returns s t) : Step s t
  | collected (roots : List Node) : Step s (s.collectGarbage roots).1
  | elsewhere {t : Session} (slots : t.heap.slots = s.heap.slots) (free : t.heap.free = s.heap.free) :
    Step s t

/-- The sessions that come about. -/
def Operated (s : Session) : Prop := ∃ limits, Relation.ReflTransGen Step (fresh limits) s

variable {s t : Session}

theorem keepsOrder_conj {args : List Value} (hs : s.heap.Orderly) (h : ∀ v ∈ args, s.heap.Holds v) :
    (Library.conj args).KeepsOrder s := by
  unfold Library.conj
  split
  · exact .new hs (Heap.accepts_vector (by simp) _)
  · next coll xs =>
    have hx : ∀ v ∈ xs, s.heap.Holds v := fun v hv => h v (List.mem_cons_of_mem _ hv)
    have reversed : ∀ v ∈ xs.reverse, s.heap.Holds v := fun v hv => hx v (List.mem_reverse.1 hv)
    -- To nothing, a list, a vector, a set, a map; nothing else can be added to.
    split
    · exact .new hs (Heap.accepts_list reversed _)
    · refine (Eval.Reads.items? hs _).bindKeepsOrder hs fun items hi => ?_
      refine .new hs (Heap.accepts_list (fun v hv => ?_) _)
      exact (List.mem_append.1 hv).elim (reversed v) (hi v)
    · refine (Eval.Reads.items? hs _).bindKeepsOrder hs fun items hi => ?_
      refine .new hs (Heap.accepts_vector (fun v hv => ?_) _)
      exact (List.mem_append.1 hv).elim (hi v) (hx v)
    · refine (Eval.Reads.set? hs _).bindKeepsOrder hs fun c hc => ?_
      exact (Eval.Reads.insertMembers hc hx).thenNew hs
    · refine (Eval.Reads.map? hs _).bindKeepsOrder hs fun m hm => ?_
      refine Eval.Reads.thenNew (f := .map) (.foldlM hm fun m x hm _ => ?_) hs
      exact .addEntry hs hm _
    · exact (Eval.Reads.failAt ..).keepsOrder (Q := fun _ => True) hs

theorem holds_pairUp {args : List Value} (h : ∀ v ∈ args, s.heap.Holds v) :
    ∀ e ∈ pairUp args, s.heap.Holds e.1 ∧ s.heap.Holds e.2 := by
  induction args using pairUp.induct with
  | case1 => nofun
  | case2 k =>
    intro e he
    obtain rfl := List.mem_singleton.1 he
    exact ⟨h k (by simp), trivial⟩
  | case3 k v rest ih =>
    intro e he
    rcases List.mem_cons.1 he with rfl | he
    · exact ⟨h k (by simp), h v (by simp)⟩
    · exact ih (fun w hw => h w (by simp [hw])) e he

theorem keepsOrder_assoc {args : List Value} (hs : s.heap.Orderly) (h : ∀ v ∈ args, s.heap.Holds v) :
    (Library.assoc args).KeepsOrder s := by
  unfold Library.assoc
  split
  · next coll first second more =>
    have paired : ∀ e ∈ pairUp (first :: second :: more), s.heap.Holds e.1 ∧ s.heap.Holds e.2 :=
      holds_pairUp fun v hv => h v (List.mem_cons_of_mem _ hv)
    dsimp only
    split
    · exact (Eval.Reads.fail _).keepsOrder (Q := fun _ => True) hs
    · split
      · exact (Eval.Reads.insertEntries Heap.accepts_map_empty paired).thenNew hs
      · refine (Eval.Reads.map? hs _).bindKeepsOrder hs fun m hm => ?_
        exact (Eval.Reads.insertEntries hm paired).thenNew hs
      · refine (Eval.Reads.items? hs _).bindKeepsOrder hs fun items hi => ?_
        refine (Eval.Reads.replaceItems 1 hi fun e he => (paired e he).2).bindKeepsOrder hs fun c hc => ?_
        exact .new hs (Heap.accepts_vector hc _)
      · exact (Eval.Reads.failAt ..).keepsOrder (Q := fun _ => True) hs
  · exact (Eval.Reads.fail _).keepsOrder (Q := fun _ => True) hs

theorem keepsOrder_dissoc {args : List Value} (hs : s.heap.Orderly) :
    (Library.dissoc args).KeepsOrder s := by
  unfold Library.dissoc
  split
  · exact (Eval.Reads.fail _).keepsOrder (Q := fun _ => True) hs
  · split
    · exact (Eval.Reads.pure (Q := fun _ => True) trivial).keepsOrder hs
    · refine (Eval.Reads.map? hs _).bindKeepsOrder hs fun m hm => ?_
      refine Eval.Reads.thenNew (f := .map) (.foldlM hm fun m k hm _ => ?_) hs
      exact (Eval.Reads.keyOf s k).bind fun _ _ => .pure (hm.erase _)
    · exact (Eval.Reads.failAt ..).keepsOrder (Q := fun _ => True) hs

/-- Only an atom is written to. -/
theorem keepsOrder_writeAtom (hs : s.heap.Orderly) (a : Address) (v : Value) :
    (Library.writeAtom a v).KeepsOrder s := by
  have read : (Library.readAtom a).Reads s fun w => s.heap.get? a = some (.atom w) := by
    refine (Eval.Reads.object s a).bind fun o ho => ?_
    split
    · exact .pure ho
    · exact .fail _
  refine read.bindKeepsOrder hs fun w hw => ?_
  exact hs.set hw v

/-- What may be asked of a session leaves its heap orderly. -/
theorem Operation.keepsOrder (hs : s.heap.Orderly) {α : Type} {x : Eval α} (asked : s.Operation x) :
    x.KeepsOrder s := by
  cases asked with
  | new ho => exact .new hs (ho.accepts hs)
  | newMap h => exact (Eval.Reads.insertEntries Heap.accepts_map_empty h).thenNew hs
  | newSet h => exact (Eval.Reads.insertMembers Heap.accepts_set_empty h).thenNew hs
  | conj h => exact keepsOrder_conj hs h
  | assoc h => exact keepsOrder_assoc hs h
  | dissoc args => exact keepsOrder_dissoc hs
  | writeAtom a v => exact keepsOrder_writeAtom hs a v

theorem Step.orderly (hs : s.heap.Orderly) (step : s.Step t) : t.heap.Orderly := by
  cases step with
  | ran asked returns => exact (asked.keepsOrder hs).returns returns
  | collected roots => exact hs.collect _ _
  | elsewhere slots free => exact hs.congr slots free

/-- **The heaps that come about are orderly.** -/
theorem Operated.orderly (h : s.Operated) : s.heap.Orderly := by
  obtain ⟨limits, steps⟩ := h
  induction steps with
  | refl => exact Heap.orderly_empty _
  | tail _ step ih => exact step.orderly ih

/-- **Equality agrees with keys.** On every heap that comes about, all values that are there have keys and
can be compared, at any nesting. If no not-a-number is among the data, they are equal if and only if their
keys are the same. Equality is reflexive, symmetric and transitive, the order in which maps and sets were
filled makes no difference to it, and no integer is equal to a float. -/
theorem Operated.equality_agrees_with_keys (h : s.Operated) :
    (∀ v w, s.heap.Comparable v → s.heap.Comparable w → ∃ k l e,
      s.heap.key v = .ok k ∧ s.heap.key w = .ok l ∧ s.heap.equal v w = .ok e ∧ (e = true ↔ k = l)) ∧
    (∀ v, s.heap.Comparable v → s.heap.equal v v = .ok true) ∧
    (∀ v w, s.heap.Comparable v → s.heap.Comparable w → s.heap.equal v w = s.heap.equal w v) ∧
    (∀ u v w, s.heap.Comparable u → s.heap.Comparable v → s.heap.Comparable w →
      s.heap.equal u v = .ok true → s.heap.equal v w = .ok true → s.heap.equal u w = .ok true) ∧
    (∀ a b o p, s.heap.get? a = some o → s.heap.get? b = some p → o.Rearranges p →
      s.heap.Comparable (.ref o.kind a) → ∀ w, s.heap.Comparable w →
      s.heap.equal (.ref o.kind a) w = s.heap.equal (.ref p.kind b) w) ∧
    ∀ i x, s.heap.equal (.int i) (.float x) = .ok false ∧
      s.heap.equal (.float x) (.int i) = .ok false := by
  have orderly := h.orderly
  refine ⟨fun v w => orderly.equal_iff, fun v => orderly.equal_refl, fun v w => orderly.equal_symm,
    fun u v w => orderly.equal_trans, fun a b o p ho hp same hv w hw => ?_, s.heap.equal_int_float⟩
  have hv' := hv.rearranged ho hp same
  exact orderly.equal_congr hv hv' hw (orderly.key_eq_of_rearranges ho hp same)

/-- In a session that made the list `(1)` and the vector `[1]`, the two are equal, as their keys are. -/
theorem equality_agrees_with_keys_list_vector :
    let h := ((fresh {}).heap.place (.list [.int 1] .unknown)).1
    let s : Session := { fresh {} with heap := (h.place (.vector [.int 1] .unknown)).1 }
    s.Operated ∧ s.heap.key (.ref .list ⟨0, 0⟩) = s.heap.key (.ref .vector ⟨1, 0⟩) ∧
      s.heap.equal (.ref .list ⟨0, 0⟩) (.ref .vector ⟨1, 0⟩) = .ok true := by
  intro h s
  have operated : s.Operated := by
    refine ⟨{}, (Relation.ReflTransGen.refl.tail ?_).tail (b := { fresh {} with heap := h }) ?_⟩
    · exact .ran (.new (.list (by simp [Heap.Holds]) .unknown)) (.inl ⟨_, rfl⟩)
    · exact .ran (.new (.vector (by simp [Heap.Holds]) .unknown)) (.inl ⟨_, rfl⟩)
  have comparable {c : Kind} {a : Address} {o : Object} (ho : s.heap.get? a = some o) (hk : o.kind = c)
      (hc : o.contents = [.int 1]) : s.heap.Comparable (.ref c a) := by
    refine ⟨⟨o, ho, hk⟩, fun x hx => ?_⟩
    rcases hx.eq_or_inside ho with e | ⟨v, hv, hx⟩
    · cases e
    · rw [hc, List.mem_singleton] at hv
      subst hv
      cases hx.eq_self (by simp)
  obtain ⟨k, l, e, hk, hl, he, answer⟩ := operated.equality_agrees_with_keys.1 (.ref .list ⟨0, 0⟩)
    (.ref .vector ⟨1, 0⟩) (comparable (o := .list [.int 1] .unknown) rfl rfl rfl)
    (comparable (o := .vector [.int 1] .unknown) rfl rfl rfl)
  have same : s.heap.key (.ref .list ⟨0, 0⟩) = s.heap.key (.ref .vector ⟨1, 0⟩) := rfl
  refine ⟨operated, same, ?_⟩
  rw [hk, hl, Except.ok.injEq] at same
  rw [he, answer.2 same]

end Session

end TwinLisp
