import TwinLisp.Proofs.Correspondence.Agreement

/-!
# The primitives agree

Every elementary computation on a session does the same on both sides of a correspondence.

## Main statements

* `Sim.object`, `Sim.items?` and their like: what is looked up corresponds.
* `Sim.new`, `Sim.intern`, `Sim.embed`: what is made corresponds.
* `Sim.withoutCollection`, `Sim.attributed`: brackets around computations that agree.
-/

namespace TwinLisp

/-- Results that are equal. -/
abbrev Same {α : Type} : Related α α := fun _ a b => a = b

/-- Results that there are on both sides or on none. -/
abbrev Optional {α β : Type} (R : Related α β) : Related (Option α) (Option β) := fun w => Option.Rel (R w)

/-- No results to speak of. -/
abbrev Done : Related Unit Unit := fun _ _ _ => True

namespace Preserves

variable {S : Setting} {w w' : World} {s s' t t' : Session}

/-- A change that makes the world larger, and after which objects other than atoms are as they were,
keeps everything. -/
theorem of_le {K : Node → Prop} {w' : World} {s' : Session} (hw : w ≤ w')
    (hf : ∀ {k a b o}, w.live k a b → k ≠ .atom → s.heap.get? a = some o → s'.heap.get? a = some o)
    (hfl : s'.heap.floor = s.heap.floor) (hi : s'.inhibited = s.inhibited)
    (hn : s'.nesting = s.nesting) : Preserves K w s w' s' :=
  ⟨hw.isSelf, hw.sym, hw.pair, fun _ => hw.live, fun _ => hw.scope, fun _ => hw.handle, fun _ => hf, hfl,
    hi, hn⟩

/-- Data stays as deep as it is. -/
theorem within (hf : Preserves everything w s w' s') (hm : s.Match S w t) (hm' : s'.Match S w' t') {n : Nat}
    {v v' : Value} (hv : v.Match w v') (h : s.heap.Within n v) : s'.heap.Within n v := by
  induction n generalizing v v' with
  | zero => exact h
  | succ n ih =>
    rintro k a o rfl ho c hc
    cases hv with
    | @ref _ _ b hl =>
      obtain ⟨p, p', hp, -, hk, hpp, -⟩ := hm.heap.objects hl
      by_cases ha : k = .atom
      · obtain ⟨p, p', hp, -, hk, -⟩ := hm'.heap.objects (hf.le.live hl)
        rw [ho] at hp
        cases hp
        rw [ha] at hk
        cases o <;> cases hk
        cases hc
      · rw [hf.fixed (.inl trivial) hl ha hp] at ho
        cases ho
        obtain ⟨c', -, hcc⟩ := exists_of_forall₂ hpp.contents hc
        exact ih hcc (h rfl hp c hc)

end Preserves

namespace Sim

variable {S : Setting} {q : Bool} {w : World} {α β : Type} {R : Related α β} {s t : Session}

/-- A change of the sessions that concerns neither the heap nor collection. -/
theorem change {f g : Session → Session} (hh : ∀ s, (f s).heap = s.heap)
    (hi : ∀ s, (f s).inhibited = s.inhibited) (hn : ∀ s, (f s).nesting = s.nesting)
    (hm : ∀ {w : World} {s t : Session}, s.Match S w t → (f s).Match S w (g t)) :
    Sim S q w (modify f : Eval Unit) (modify g : Eval Unit) Done := by
  intro s t h _
  change Agree S everything w s Done (.ok PUnit.unit (f s)) (.ok PUnit.unit (g t))
  exact .ok (Preserves.of_le le_rfl (fun _ _ => by rw [hh]; exact id) (by rw [hh]) (hi s) (hn s)) (hm h)
    trivial

/-! ### Names -/

/-- A name that is entered corresponds. -/
theorem intern (name : String) :
    Sim S q w (Eval.intern name) (Eval.intern name) fun w x y => w.sym x y := by
  intro s t hm _
  change Agree S everything w s _
    (.ok (s.symbols.intern name).2 { s with symbols := (s.symbols.intern name).1 })
    (.ok (t.symbols.intern name).2 { t with symbols := (t.symbols.intern name).1 })
  exact .ok (Preserves.of_le World.le_withSymbol (fun _ _ => id) rfl rfl rfl) (hm.intern name) (.inr ⟨rfl, rfl⟩)

theorem nameOf {x y : Symbol} (h : w.sym x y) : Sim S q w (Eval.nameOf x) (Eval.nameOf y) Same :=
  get fun hm => pure (hm.symbols.name_eq h)

theorem generateName (start : String) :
    Sim S q w (Eval.generateName start) (Eval.generateName start) Same := by
  intro s t hm _
  change Agree S everything w s Same
    (.ok (start ++ toString (s.generated + 1)) { s with generated := s.generated + 1 })
    (.ok (start ++ toString (t.generated + 1)) { t with generated := t.generated + 1 })
  refine .ok (Preserves.of_le le_rfl (fun _ _ => id) rfl rfl rfl) ?_ (by rw [Same, hm.generated])
  exact { hm with
    eq := fun hs => by rw [hm.eq hs]
    generated := congrArg (· + 1) hm.generated }

/-- Root bindings of the same name correspond. -/
theorem defineGlobal {x y : Symbol} {v v' : Value} (hx : w.sym x y) (hv : v.Match w v') :
    Sim S q w (Eval.defineGlobal x v) (Eval.defineGlobal y v') Done := by
  intro s t hm _
  change Agree S everything w s Done
    (.ok PUnit.unit { s with scopes := s.scopes.define Scopes.root x v })
    (.ok PUnit.unit { t with scopes := t.scopes.define Scopes.root y v' })
  refine .ok (Preserves.of_le le_rfl (fun _ _ => id) rfl rfl rfl) ?_ trivial
  exact { hm with
    eq := fun hs => by rw [hm.eq hs, w.sym_eq hs hx, hv.eq hs]
    scopes := S.scopes_define hm.symbols hm.scopes hx hv }

/-! ### Objects -/

theorem checkAlive : Sim S q w Eval.checkAlive Eval.checkAlive Done := by
  refine get fun hm => ?_
  rw [hm.aliveLeft, hm.aliveRight]
  exact pure trivial

/-- A new object corresponds to a new object. -/
theorem alloc {o o' : Object} (ho : o.Match S w o') :
    Sim S q w (Eval.alloc o) (Eval.alloc o') fun w a b => w.live o.kind a b := by
  refine bind checkAlive fun {w' _ _} hw _ => ?_
  intro s t hm _
  dsimp only
  cases hs : s.heap.isFull with
  | true =>
    refine .fatal rfl fun self => ⟨rfl, ?_⟩
    rw [← hm.eq self, hs]
    rfl
  | false =>
    have room : t.heap.isFull = false := by
      by_cases self : w'.isSelf
      · rw [← hm.eq self, hs]
      · rw [Heap.isFull, hm.heap.unlimited self]
        rfl
    rw [room]
    refine .ok (Preserves.of_le World.le_withObject (fun _ _ hf => ?_) (s.heap.place_floor o) rfl rfl)
      (hm.place (ho.mono hw)) (.inr ⟨rfl, rfl, rfl⟩)
    exact (s.heap.get?_place_of_known o hm.heap.soundLeft (Heap.known_of_get? hf)).trans hf

theorem new {o o' : Object} (ho : o.Match S w o') :
    Sim S q w (Eval.new o) (Eval.new o') Value.Match := by
  refine bind (alloc ho) fun _ hl => ?_
  rw [← ho.kind_eq]
  exact pure (.ref _ hl)

theorem newString (x : String) : Sim S q w (Eval.newString x) (Eval.newString x) Value.Match :=
  new (.str x)

theorem newList {vs vs' : List Value} (h : Value.MatchAll w vs vs') :
    Sim S q w (Eval.newList vs) (Eval.newList vs') Value.Match :=
  new (.list .unknown h)

theorem newVector {vs vs' : List Value} (h : Value.MatchAll w vs vs') :
    Sim S q w (Eval.newVector vs) (Eval.newVector vs') Value.Match :=
  new (.vector .unknown h)

/-- Addresses that correspond lead to objects that do. -/
theorem object {k : Kind} {a b : Address} (h : w.live k a b) :
    Sim S q w (Eval.object a) (Eval.object b) fun w o o' => o.kind = k ∧ o.Match S w o' := by
  refine get fun hm => ?_
  obtain ⟨o, o', ho, ho', hk, hoo, -⟩ := hm.heap.objects h
  rw [ho, ho']
  exact pure ⟨hk, hoo⟩

theorem string? {v v' : Value} (h : v.Match w v') :
    Sim S q w (Eval.string? v) (Eval.string? v') Same := by
  cases h with
  | ref k h =>
    cases k with
    | str =>
      refine bind (object h) fun _ ho => ?_
      obtain ⟨hk, ho⟩ := ho
      cases ho with
      | str x => exact pure rfl
      | _ => cases hk
    | _ => exact pure rfl
  | _ => exact pure rfl

theorem items? {v v' : Value} (h : v.Match w v') :
    Sim S q w (Eval.items? v) (Eval.items? v') (Optional Value.MatchAll) := by
  cases h with
  | ref k h =>
    cases k with
    | list =>
      refine bind (object h) fun _ ho => ?_
      obtain ⟨hk, ho⟩ := ho
      cases ho with
      | list _ h => exact pure (.some h)
      | _ => cases hk
    | vector =>
      refine bind (object h) fun _ ho => ?_
      obtain ⟨hk, ho⟩ := ho
      cases ho with
      | vector _ h => exact pure (.some h)
      | _ => cases hk
    | _ => exact pure .none
  | _ => exact pure .none

theorem map? {v v' : Value} (h : v.Match w v') :
    Sim S q w (Eval.map? v) (Eval.map? v') (Optional fun w => Ordered.Match w (Entry.Match w)) := by
  cases h with
  | ref k h =>
    cases k with
    | map =>
      refine bind (object h) fun _ ho => ?_
      obtain ⟨hk, ho⟩ := ho
      cases ho with
      | map h => exact pure (.some h)
      | _ => cases hk
    | _ => exact pure .none
  | _ => exact pure .none

theorem set? {v v' : Value} (h : v.Match w v') :
    Sim S q w (Eval.set? v) (Eval.set? v') (Optional fun w => Ordered.Match w (Value.Match w)) := by
  cases h with
  | ref k h =>
    cases k with
    | set =>
      refine bind (object h) fun _ ho => ?_
      obtain ⟨hk, ho⟩ := ho
      cases ho with
      | set h => exact pure (.some h)
      | _ => cases hk
    | _ => exact pure .none
  | _ => exact pure .none

theorem function? {v v' : Value} (h : v.Match w v') :
    Sim S q w (Eval.function? v) (Eval.function? v') (Optional (Function.Match S)) := by
  cases h with
  | ref k h =>
    cases k with
    | function =>
      refine bind (object h) fun _ ho => ?_
      obtain ⟨hk, ho⟩ := ho
      cases ho with
      | function h => exact pure (.some h)
      | _ => cases hk
    | _ => exact pure .none
  | _ => exact pure .none

/-- Values that correspond are registered under one handle. -/
theorem embed {v v' : Value} (h : v.Match w v') :
    Sim S q w (Eval.embed v) (Eval.embed v') fun w n m => n = m ∧ w.handle n ∧ S.oldest ≤ n := by
  intro s t hm _
  change Agree S everything w s _
    (.ok s.heap.nextHandle { s with heap := (s.heap.embed v).1 })
    (.ok t.heap.nextHandle { t with heap := (t.heap.embed v').1 })
  exact .ok (Preserves.of_le World.le_withHandle (fun _ _ => id) rfl rfl rfl) (hm.embed h)
    ⟨hm.heap.nextHandle, .inr rfl, hm.heap.oldest⟩

theorem embedded {n : Nat} (h : w.handle n) :
    Sim S q w (Eval.embedded n) (Eval.embedded n) Value.Match := by
  refine get fun hm => ?_
  obtain ⟨-, v, v', hv, hv', hvv⟩ := hm.heap.handles h
  rw [hv, hv']
  exact pure hvv

/-! ### Brackets -/

/-- Where collection is forbidden nothing is collected. -/
theorem withoutCollection {x : Eval α} {y : Eval β} (h : Sim S true w x y R) :
    Sim S q w (Eval.withoutCollection x) (Eval.withoutCollection y) R := by
  intro s t hm _
  have hm' : Session.Match S w { s with inhibited := s.inhibited + 1 }
      { t with inhibited := t.inhibited + 1 } := { hm with
    eq := fun hs => by rw [hm.eq hs]
    inhibited := fun hs => by rw [hm.inhibited hs] }
  change Agree S everything w s R
    (Eval.always _ x { s with inhibited := s.inhibited + 1 })
    (Eval.always _ y { t with inhibited := t.inhibited + 1 })
  refine (h hm' fun _ => Nat.succ_pos _).always id (fun _ => rfl) (fun _ => id)
    fun {w' s' t'} hf hm'' => ?_
  have left : s'.inhibited = s.inhibited + 1 := hf.inhibited
  refine ⟨Preserves.of_le hf.le (hf.fixed (.inl trivial)) hf.floor ?_ hf.nesting,
    { hm'' with eq := fun hs => by rw [hm''.eq hs], inhibited := fun hs => ?_ }⟩
  · dsimp only
    omega
  · have right := hm''.inhibited hs
    dsimp only
    omega

/-- Calls of native functions at the same place. -/
theorem attributed {x : Eval α} {y : Eval β} (h : Sim S q w x y R) (l : Location)
    (ls : List Location) : Sim S q w (Eval.attributed l ls x) (Eval.attributed l ls y) R := by
  intro s t hm hq
  have hm' : Session.Match S w { s with attribution := .ofArguments l ls }
      { t with attribution := .ofArguments l ls } :=
    { hm with eq := fun hs => by rw [hm.eq hs], attribution := rfl }
  change Agree S everything w s R
    (Eval.always _ (Eval.blaming l x) { s with attribution := .ofArguments l ls })
    (Eval.always _ (Eval.blaming l y) { t with attribution := .ofArguments l ls })
  refine ((h hm' hq).blaming l).always id (fun _ => by rw [hm.attribution]) (fun _ => id)
    fun {w' s' t'} hf hm'' => ?_
  exact ⟨Preserves.of_le hf.le (hf.fixed (.inl trivial)) hf.floor hf.inhibited hf.nesting,
    { hm'' with
      eq := fun hs => by rw [hm''.eq hs, hm.attribution]
      attribution := hm.attribution }⟩

theorem callSite : Sim S q w Eval.callSite Eval.callSite Same :=
  get fun hm => pure (congrArg Attribution.site hm.attribution)

theorem failAt (i : Nat) (c : Cause) (noLoss : c.isLoss = false) :
    Sim S q w (Eval.failAt i c) (Eval.failAt i c) R := by
  refine get fun hm => ?_
  rw [hm.attribution]
  exact fail ((Fault.Match.of _ c noLoss).orAt _)

/-! ### Counters -/

theorem enterCall : Sim S q w Eval.enterCall Eval.enterCall Done := by
  intro s t hm _
  change Agree S everything w s Done
    ((if s.limits.callDepth ≤ s.callDepth then Eval.failWith (.callsTooDeep s.limits.callDepth)
      else set { s with callDepth := s.callDepth + 1 } : Eval Unit) s)
    ((if t.limits.callDepth ≤ t.callDepth then Eval.failWith (.callsTooDeep t.limits.callDepth)
      else set { t with callDepth := t.callDepth + 1 } : Eval Unit) t)
  rw [← hm.callLimit, ← hm.callDepth]
  split
  · exact .fault (.refl _ _ _) hm (.of w _ rfl)
  · refine .ok (Preserves.of_le le_rfl (fun _ _ => id) rfl rfl rfl) ?_ trivial
    exact { hm with eq := fun hs => by rw [hm.eq hs], callDepth := rfl }

theorem leaveCall (hm : s.Match S w t) : (Eval.leaveCall s).Match S w (Eval.leaveCall t) :=
  { hm with
    eq := fun hs => by rw [hm.eq hs]
    callDepth := congrArg (· - 1) hm.callDepth }

theorem setCallDepth (n : Nat) : Sim S q w (Eval.setCallDepth n) (Eval.setCallDepth n) Done :=
  change (fun _ => rfl) (fun _ => rfl) (fun _ => rfl) fun hm =>
    { hm with eq := fun hs => by rw [hm.eq hs], callDepth := rfl }

/-- Operands that correspond are left to the machines that wait. -/
theorem setOperands {os os' : Array Value} (h : Value.MatchAll w os.toList os'.toList) :
    Sim S q w (Eval.setOperands os) (Eval.setOperands os') Done := by
  intro s t hm _
  change Agree S everything w s Done (.ok PUnit.unit { s with operands := os })
    (.ok PUnit.unit { t with operands := os' })
  refine .ok (Preserves.of_le le_rfl (fun _ _ => id) rfl rfl rfl) ?_ trivial
  exact { hm with
    eq := fun hs => by rw [hm.eq hs, Array.toList_inj.1 (Value.Match.all_eq h hs)]
    operands := h }

theorem write (text : String) : Sim S q w (Eval.write text) (Eval.write text) Done :=
  change (fun _ => rfl) (fun _ => rfl) (fun _ => rfl) fun hm =>
    { hm with eq := fun hs => by rw [hm.eq hs], output := congrArg (· ++ text) hm.output }

end Sim

end TwinLisp
