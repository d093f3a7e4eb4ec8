import TwinLisp.Proofs.Transparency.Setting

/-!
# What a collection leaves in common

A collection in the first of two sessions takes away what cannot be reached there. What can be goes on
to correspond, for its parts can be reached as well. The second session never collects, unless it is the
first one.

## Main definitions

* `World.restrict`: what corresponds and is kept.

## Main statements

* `Session.Match.collect`: sessions correspond after a collection in the first one.
* `Agree.maybeCollect`: where a collection may happen, what is kept goes on to correspond.
-/

namespace TwinLisp

/-- What corresponds and satisfies `P`. Names and matches of the past are not forgotten. -/
def World.restrict (w : World) (P : Node → Prop) : World where
  sym := w.sym
  pair := w.pair
  live k a b := w.live k a b ∧ P (.object a)
  scope i := w.scope i ∧ P (.scope i)
  handle n := w.handle n ∧ P (.handle n)
  isSelf := w.isSelf
  sym_eq := w.sym_eq
  pair_eq := w.pair_eq
  live_eq hs := fun hl => w.live_eq hs hl.1

variable {w : World} {P : Node → Prop} {e : Terms}

/-! ### Parts of what is kept -/

theorem Value.Match.restrict {v v' : Value} (h : v.Match w v') (hP : ∀ n ∈ Node.ofValue v, P n) :
    v.Match (w.restrict P) v' := by
  cases h with
  | symbol h => exact .symbol h
  | keyword h => exact .keyword h
  | ref k h => exact .ref k ⟨h, hP _ (by simp [Node.ofValue])⟩
  | _ => constructor

theorem Value.Match.restrict_all {vs vs' : List Value} (h : Value.MatchAll w vs vs')
    (hP : ∀ n ∈ Node.ofValues vs, P n) : Value.MatchAll (w.restrict P) vs vs' :=
  forall₂_imp_of_mem h fun v hv _ _ hm => hm.restrict fun n hn => hP n (List.mem_flatMap.2 ⟨v, hv, hn⟩)

theorem Prototype.Match.restrict {p q : Prototype} (h : p.Match w q)
    (hP : ∀ n ∈ Node.ofValues p.values, P n) : p.Match (w.restrict P) q := by
  have names (x : Symbol) (hx : w.sym x x) : (w.restrict P).sym x x := hx
  refine h.imp names fun v hv _ hm => ?_
  exact hm.restrict fun n hn => hP n (List.mem_flatMap.2 ⟨v, hv, hn⟩)

theorem Function.Match.restrict {f g : Function} (h : f.Match (.transparent e) w g)
    (hP : ∀ n ∈ f.references, P n) : f.Match (.transparent e) (w.restrict P) g where
  name := h.name
  isMacro := h.isMacro
  body := by
    have hb : f.body.Match w g.body := h.body
    change f.body.Match (w.restrict P) g.body
    unfold Function.references at hP
    generalize f.body = b at hb hP ⊢
    generalize g.body = c at hb ⊢
    cases hb with
    | native n => exact .native n
    | @interpreted c d h =>
      refine .interpreted ⟨h.eq, ⟨h.scope, hP _ (List.mem_cons_self ..)⟩, fun o ho f hf n hn => ?_⟩
      refine ⟨h.handles o ho f hf n hn, hP _ (List.mem_cons_of_mem _ (List.mem_flatMap.2 ⟨o, ho, ?_⟩))⟩
      exact List.mem_map_of_mem (Form.mem_handlesOf.2 ⟨f, hf, hn⟩)
    | compiled hp hc =>
      exact .compiled (hp.restrict fun n hn => hP n (List.mem_append_left _ hn))
        (Value.Match.restrict_all hc fun n hn => hP n (List.mem_append_right _ hn))

theorem Object.Match.restrict {o o' : Object} (h : o.Match (.transparent e) w o')
    (hP : ∀ n ∈ o.references, P n) : o.Match (.transparent e) (w.restrict P) o' := by
  cases h with
  | str s => exact .str s
  | list l h => exact .list l (Value.Match.restrict_all h hP)
  | vector l h => exact .vector l (Value.Match.restrict_all h hP)
  | map h =>
    refine .map (h.imp id (fun _ _ => id) (fun _ _ => id) fun a ha b hab => ?_)
    have part (n : Node) (hn : n ∈ Node.ofValue a.1 ++ Node.ofValue a.2) : P n :=
      hP n (List.mem_flatMap.2 ⟨a, ha, hn⟩)
    exact ⟨hab.1.restrict fun n hn => part n (List.mem_append_left _ hn),
      hab.2.restrict fun n hn => part n (List.mem_append_right _ hn)⟩
  | set h =>
    refine .set (h.imp id (fun _ _ => id) (fun _ _ => id) fun a ha b hab => ?_)
    exact hab.restrict fun n hn => hP n (List.mem_flatMap.2 ⟨a, ha, hn⟩)
  | function h => exact .function (h.restrict hP)
  | atom h => exact .atom (h.restrict hP)
  | host t => exact .host t

/-- Scopes that are kept go on to correspond, if what they refer to is kept. -/
theorem Scopes.Match.restrict {r u : Scopes} (h : r.Match w u) (hroot : P (.scope Scopes.root))
    (hP : ∀ {i s}, P (.scope i) → r.all[i]? = some s → ∀ n ∈ s.references, P n) :
    r.Match (w.restrict P) u where
  size := h.size
  root := ⟨h.root, hroot⟩
  all {i} hi := by
    obtain ⟨s, t, hs, ht, hst⟩ := h.all hi.1
    have part := hP hi.2 hs
    refine ⟨s, t, hs, ht, fun j => ?_, hst.parent_eq, fun p hp => ⟨hst.parent p hp, part _ ?_⟩⟩
    · have bound (v : Value) (hv : s.bindings[j]? = some v) : v ∈ s.bindings.values :=
        mem_values_iff.2 ⟨j, hv⟩
      have related := hst.bindings j
      generalize s.bindings[j]? = x at bound related ⊢
      generalize t.bindings[j]? = y at related ⊢
      cases related with
      | none => exact .none
      | some hv =>
        refine .some (hv.restrict fun n hn => part n (List.mem_append_left _ ?_))
        exact List.mem_flatMap.2 ⟨_, bound _ rfl, hn⟩
    · exact List.mem_append_right _ (List.mem_map_of_mem (by simp [hp]))

/-! ### Collecting -/

/-- What the second side is after a collection on the first one: what it was, or else the same. -/
def Follows {α : Type} (w : World) (before after first : α) : Prop :=
  (¬ w.isSelf ∧ after = before) ∨ (w.isSelf ∧ after = first)

/-- What a collection of the heap keeps goes on to correspond. -/
theorem Heap.Match.collect {h k k' : Heap} (hm : h.Match (.transparent e) w k) (scopes : Scopes)
    (roots : List Node) (right : Follows w k k' (h.collect scopes roots).1) :
    (h.collect scopes roots).1.Match (.transparent e) (w.restrict (h.Reaches scopes roots)) k' := by
  have objects {a b l o'} (hl : w.live l a b) (hr : h.Reaches scopes roots (.object a))
      (ho : k.get? b = some o') : k'.get? b = some o' := by
    obtain ⟨-, rfl⟩ | ⟨hs, rfl⟩ := right
    · exact ho
    · rw [← hm.eq hs, ← w.live_eq hs hl] at ho
      rw [← w.live_eq hs hl]
      exact (h.get?_collect scopes roots a o').2 ⟨ho, hr⟩
  have handles {n v} (hr : h.Reaches scopes roots (.handle n)) (hv : k.embedded? n = some v) :
      k'.embedded? n = some v := by
    obtain ⟨-, rfl⟩ | ⟨hs, rfl⟩ := right
    · exact hv
    · rw [← hm.eq hs] at hv
      exact (h.embedded?_collect scopes roots n v).2 ⟨hv, hr⟩
  have founded {g : Heap} {live : Address → Prop} (hg : g.Founded live) :
      (g.collect scopes roots).1.Founded live := by
    obtain ⟨born, now, hnow, hborn⟩ := hg
    exact ⟨born, now, hnow, fun ha ho => hborn ha ((g.get?_collect scopes roots _ _).1 ho).1⟩
  have rest : k'.nextHandle = k.nextHandle ∧ k'.Sound ∧ k'.Founded w.Right ∧
      (∀ {b}, k.Known b → k'.Known b) ∧ k'.capacity = k.capacity := by
    obtain ⟨-, rfl⟩ | ⟨hs, rfl⟩ := right
    · exact ⟨rfl, hm.soundRight, hm.foundedRight, id, rfl⟩
    · obtain rfl := hm.eq hs
      exact ⟨rfl, hm.soundRight.sweep _, founded hm.foundedRight, fun hb => hb.sweep _, rfl⟩
  obtain ⟨nextHandle, sound, foundedRight, known, capacity⟩ := rest
  exact {
    eq := fun hs => by
      obtain ⟨hn, -⟩ | ⟨-, rfl⟩ := right
      · exact absurd hs hn
      · rfl
    objects := fun {l a b} hl => by
      obtain ⟨hl, hr⟩ := hl
      obtain ⟨o, o', ho, ho', hk, hoo, hpair⟩ := hm.objects hl
      refine ⟨o, o', (h.get?_collect scopes roots a o).2 ⟨ho, hr⟩, objects hl hr ho', hk,
        hoo.restrict ?_, hpair⟩
      exact fun n hn => .step hr ((mem_objectReferences_iff ho).1 hn)
    known := fun hab => ⟨(hm.known hab).1.sweep _, known (hm.known hab).2⟩
    handles := fun {n} hn => by
      obtain ⟨hn, hr⟩ := hn
      obtain ⟨lt, v, v', hv, hv', hvv⟩ := hm.handles hn
      refine ⟨lt, v, v', (h.embedded?_collect scopes roots n v).2 ⟨hv, hr⟩, handles hr hv',
        hvv.restrict ?_⟩
      intro m hm
      obtain ⟨k, a, rfl, rfl⟩ := Node.mem_ofValue_iff.1 hm
      exact .step hr (.registered hv)
    nextHandle := hm.nextHandle.trans nextHandle.symm
    oldest := hm.oldest
    since := (Heap.Continues.collect h scopes roots).trans hm.since
    whole := fun hs a o ho => by
      obtain ⟨ho, hr⟩ := (h.get?_collect scopes roots a o).1 ho
      exact ⟨hm.whole hs ho, hr⟩
    registered := fun hs n v hv => by
      obtain ⟨hv, hr⟩ := (h.embedded?_collect scopes roots n v).1 hv
      exact ⟨hm.registered hs hv, hr⟩
    soundLeft := hm.soundLeft.sweep _
    soundRight := sound
    foundedLeft := (founded hm.foundedLeft).imp fun a ⟨l, b, hl, _⟩ => ⟨l, b, hl⟩
    foundedRight := foundedRight.imp fun b ⟨l, a, hl, _⟩ => ⟨l, a, hl⟩
    unlimited := fun hs => capacity.trans (hm.unlimited hs) }

/-- **What a collection of the first session keeps goes on to correspond.** -/
theorem Session.Match.collect {s t t' : Session} (hm : s.Match (.transparent e) w t) (roots : List Node)
    (right : Follows w t t' (s.collectGarbage roots).1) :
    Session.Match (.transparent e)
      (w.restrict (s.heap.Reaches s.scopes (s.ownRoots ++ roots))) (s.collectGarbage roots).1 t' := by
  have pinned (i : Nat) : Option.Rel
      (Value.Match (w.restrict (s.heap.Reaches s.scopes (s.ownRoots ++ roots)))) s.pins[i]? t.pins[i]? := by
    have own (v : Value) (hv : s.pins[i]? = some v) (n : Node) (hn : n ∈ Node.ofValue v) :
        n ∈ s.ownRoots ++ roots := by
      refine List.mem_append_left _ (List.mem_cons_of_mem _ (List.mem_flatMap.2 ⟨v, ?_, hn⟩))
      exact List.mem_append_left _ (mem_values_iff.2 ⟨i, hv⟩)
    have related := hm.pins i
    generalize s.pins[i]? = x at own related ⊢
    generalize t.pins[i]? = y at related ⊢
    cases related with
    | none => exact .none
    | some hv => exact .some (hv.restrict fun n hn => .root (own _ rfl n hn))
  have operands : Value.MatchAll (w.restrict (s.heap.Reaches s.scopes (s.ownRoots ++ roots)))
      s.operands.toList t.operands.toList := by
    refine forall₂_imp_of_mem hm.operands fun v hv _ _ related => related.restrict fun n hn => .root ?_
    refine List.mem_append_left _ (List.mem_cons_of_mem _ (List.mem_flatMap.2 ⟨v, ?_, hn⟩))
    exact List.mem_append_right _ hv
  have scopes : (Setting.transparent e).scopes
      (w.restrict (s.heap.Reaches s.scopes (s.ownRoots ++ roots))) s.symbols s.scopes t.symbols t.scopes := by
    refine ⟨hm.scopes.1, hm.scopes.2.restrict (.root (by simp [Session.ownRoots])) ?_⟩
    exact fun hr hs n hn => .step hr ((Heap.mem_scopeReferences_iff hs).1 hn)
  have heap {k : Heap} (right : Follows w t.heap k (s.collectGarbage roots).1.heap) :=
    hm.heap.collect s.scopes (s.ownRoots ++ roots) right
  obtain ⟨hn, rfl⟩ | ⟨hs, rfl⟩ := right
  · exact { hm with
      isSelf := hm.isSelf
      eq := fun hs => absurd hs hn
      unique := ⟨hm.unique.sym_right, hm.unique.sym_left, hm.unique.pair_right, hm.unique.pair_left⟩
      symbols := hm.symbols
      scopes := scopes
      pins := pinned
      operands := operands
      inhibited := hm.inhibited
      heap := heap (.inl ⟨hn, rfl⟩) }
  · obtain rfl := hm.eq hs
    exact { hm with
      isSelf := hm.isSelf
      eq := fun _ => rfl
      unique := ⟨hm.unique.sym_right, hm.unique.sym_left, hm.unique.pair_right, hm.unique.pair_left⟩
      symbols := hm.symbols
      scopes := scopes
      pins := pinned
      operands := operands
      inhibited := hm.inhibited
      heap := heap (.inr ⟨hs, rfl⟩) }

/-- What the roots of a collection include is kept. -/
theorem Preserves.collect {K : Node → Prop} {s t : Session} (hm : s.Match (.transparent e) w t)
    (free : ¬ 0 < s.inhibited) {roots : List Node} (hK : ∀ n, K n → n ∈ roots) :
    Preserves K w s (w.restrict (s.heap.Reaches s.scopes (s.ownRoots ++ roots)))
      (s.collectGarbage roots).1 := by
  have kept {n : Node} (hn : K n ∨ 0 < s.inhibited) :
      s.heap.Reaches s.scopes (s.ownRoots ++ roots) n :=
    .root (List.mem_append_right _ (hK n (hn.resolve_right free)))
  refine ⟨.rfl, id, id, fun hk hl => ⟨hl, kept hk⟩, fun hk hl => ⟨hl, kept hk⟩, fun hk hl => ⟨hl, ?_⟩,
    fun hk _ _ ho => (s.heap.get?_collect _ _ _ _).2 ⟨ho, kept hk⟩, rfl, rfl, rfl⟩
  rcases hk with hk | hk | ⟨k, hf, hle⟩
  · exact kept (.inl hk)
  · exact absurd hk free
  · obtain ⟨-, v, -, hv, -⟩ := hm.heap.handles hl
    exact .active hf hle (Option.isSome_of_eq_some hv)

/-- **Where a collection may happen, what it keeps goes on to correspond.** If both sides are one, they have
to agree on what to keep. -/
theorem Agree.maybeCollect {K : Node → Prop} {s t : Session} {left right : Unit → List Node}
    (hm : s.Match (.transparent e) w t) (hK : ∀ n, K n → n ∈ left ())
    (same : w.isSelf → left () = right ()) :
    Agree (.transparent e) K w s Done (Eval.maybeCollect left s) (Eval.maybeCollect right t) := by
  have unfolded (roots : Unit → List Node) (s : Session) : Eval.maybeCollect roots s =
      .ok () (if s.wantsCollection then (s.collectGarbage (roots ())).1 else s) := by
    change (if s.wantsCollection then set (s.collectGarbage (roots ())).1 else Pure.pure () : Eval Unit) s = _
    split <;> rfl
  rw [unfolded, unfolded]
  by_cases hs : s.wantsCollection = true
  · have free : ¬ 0 < s.inhibited := by
      simp only [Session.wantsCollection, Bool.and_eq_true, beq_iff_eq] at hs
      omega
    rw [if_pos hs]
    refine .ok (.collect hm free hK) (hm.collect _ ?_) trivial
    by_cases self : w.isSelf
    · obtain rfl := hm.eq self
      rw [if_pos hs, same self]
      exact .inr ⟨self, rfl⟩
    · have idle : t.wantsCollection = false := by simp [Session.wantsCollection, hm.inhibited self]
      rw [if_neg (by simp [idle])]
      exact .inl ⟨self, rfl⟩
  · rw [if_neg hs]
    have idle : t.wantsCollection = false := by
      by_cases self : w.isSelf
      · rw [← hm.eq self]
        simpa using hs
      · simp [Session.wantsCollection, hm.inhibited self]
    rw [if_neg (by simp [idle])]
    exact .ok (.refl K w s) hm trivial

end TwinLisp
