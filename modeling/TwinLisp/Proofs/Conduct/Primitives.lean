import TwinLisp.Proofs.Conduct.Obeys

/-!
# Primitive computations obey

What the primitive computations on a session do to it. From here on it does not matter any more how a
session is made.

## Main statements

* `Obeys.new`: only admitted functions are made.
* `Obeys.function?`: and so only admitted functions are found.
* `Obeys.withoutCollection`, `Obeys.attributed`, `Obeys.called`: counters are back in place afterwards.
-/

namespace TwinLisp

namespace Session

variable {P : Policy} {s t : Session}

/-- A change that is not a change of the counters. -/
theorem Leads.single (h : Change P s t) (hi : t.inhibited = s.inhibited) (hn : t.nesting = s.nesting)
    (ha : t.attribution = s.attribution) (hf : t.heap.floor = s.heap.floor)
    (hc : t.callDepth = s.callDepth) (ho : t.operands = s.operands) : s.Leads P t :=
  ⟨⟨Evolves.single h, hi, hn, ha, hf, fun _ => ho⟩, hc⟩

end Session

namespace Obeys

open Session

variable {P : Policy} {α : Type} {Q : α → Prop}

/-! ### Names -/

/-- Only the name of a core operator has a guarded symbol. -/
theorem intern (name : String) : Obeys P (Eval.intern name) fun symbol =>
    CoreOp.ofName? name = none → P.guarded symbol = none := by
  refine changeGet (fun s _ => .single (.intern name) rfl rfl rfl rfl rfl rfl) fun s hs plain => ?_
  by_contra hg
  obtain ⟨n, hn⟩ := Option.ne_none_iff_exists'.1 hg
  obtain ⟨text, core, found⟩ := hs.names hn
  have names := SymbolTable.name_of_find? (s.symbols.find?_intern_of_find? name found)
  rw [SymbolTable.name_of_find? (s.symbols.find?_intern name)] at names
  simp [← names, plain] at core

theorem nameOf (symbol : Symbol) : Obeys P (Eval.nameOf symbol) ⊤ := get fun _ _ => done _

theorem generateName (start : String) : Obeys P (Eval.generateName start) ⊤ :=
  changeGet (fun _ _ => .single (.generate _) rfl rfl rfl rfl rfl rfl) fun _ _ => trivial

theorem keyword (name : String) : Obeys P (Eval.keyword name) ⊤ := (intern name).andThen fun _ => done _

theorem symbol (name : String) : Obeys P (Eval.symbol name) fun v =>
    ∃ symbol, v = .symbol symbol ∧ (CoreOp.ofName? name = none → P.guarded symbol = none) :=
  (intern name).bind fun symbol plain => pure ⟨symbol, rfl, plain⟩

/-! ### Scopes -/

theorem openScope (parent : ScopeId) : Obeys P (Eval.openScope parent) P.Binds :=
  changeGet (fun _ _ => .single (.openScope parent) rfl rfl rfl rfl rfl rfl) fun _ hs =>
    ⟨hs.root_pos.ne', hs.scopes⟩

theorem define {i : ScopeId} (hi : P.Binds i) (name : Symbol) (v : Value) :
    Obeys P (Eval.define i name v) ⊤ :=
  change fun _ _ => .single (.define hi name v) rfl rfl rfl rfl rfl rfl

/-- A name that is not guarded may be bound at the root. -/
theorem defineGlobal {name : Symbol} (h : P.guarded name = none) (v : Value) :
    Obeys P (Eval.defineGlobal name v) ⊤ :=
  change fun _ _ => .single (.defineGlobal (by simp [h])) rfl rfl rfl rfl rfl rfl

/-! ### Objects -/

theorem checkAlive : Obeys P Eval.checkAlive ⊤ := by
  refine get fun s _ => ?_
  split
  · exact failWith (P.ordinary trivial)
  · exact done _

theorem alloc {o : Object} (h : ∀ f, o = .function f → P.admits f) : Obeys P (Eval.alloc o) ⊤ := by
  refine checkAlive.andThen fun _ s hs => ?_
  dsimp only
  split
  · exact .fault (.single .terminate rfl rfl rfl rfl rfl rfl) (P.ordinary trivial)
  · exact .ok (.single (.place h) rfl rfl rfl (Heap.place_floor ..) rfl rfl) trivial

theorem new {o : Object} (h : ∀ f, o = .function f → P.admits f) : Obeys P (Eval.new o) ⊤ :=
  (alloc h).andThen fun _ => done _

/-- A value that was made just now. -/
theorem new_eq {o : Object} {v : Value} {s t : Session} (hs : s.heap.Sound)
    (h : Eval.new o s = .ok v t) : ∃ a, v = .ref o.kind a ∧ t.heap.get? a = some o := by
  have failed {e : Stop} {u : Session} (ha : Eval.alloc o s = .error e u) : False := by
    cases (Eval.bind_eq_of_error ha).symm.trans h
  cases hc : Eval.checkAlive s with
  | error e u => exact (failed (Eval.bind_eq_of_error hc)).elim
  | ok _ u =>
    have same : s.heap = u.heap := by
      change (if s.terminated = true then Eval.failWith .terminated else Pure.pure PUnit.unit : Eval PUnit) s
        = _ at hc
      split at hc <;> cases hc
      rfl
    have alloc := Eval.bind_eq_of_ok hc (f := fun _ s =>
      if s.heap.isFull then
        .error (.fault (.of (.heapFull s.heap.stats.live))) { s with terminated := true }
      else .ok (s.heap.place o).2 { s with heap := (s.heap.place o).1 })
    by_cases full : u.heap.isFull = true
    · exact (failed (alloc.trans (if_pos full))).elim
    · cases (Eval.bind_eq_of_ok (alloc.trans (if_neg full))).symm.trans h
      exact ⟨_, rfl, Heap.get?_place_self _ _ (same ▸ hs)⟩

theorem newString (text : String) : Obeys P (Eval.newString text) ⊤ := new nofun

theorem newList (items : List Value) : Obeys P (Eval.newList items) ⊤ := new nofun

theorem newVector (items : List Value) : Obeys P (Eval.newVector items) ⊤ := new nofun

/-- What is found on the heap was admitted there. -/
theorem object (a : Address) : Obeys P (Eval.object a) fun o => ∀ f, o = .function f → P.admits f := by
  refine get fun s hs => ?_
  cases ho : s.heap.get? a with
  | some o => exact pure fun f hf => hs.functions (hf ▸ ho)
  | none => exact defect (P.ordinary trivial)

theorem function? (v : Value) : Obeys P (Eval.function? v) fun f => ∀ g, f = some g → P.admits g := by
  unfold Eval.function?
  split
  · refine (object _).bind fun o ho => ?_
    split
    · exact pure fun g hg => ho g (congrArg Object.function (Option.some.inj hg))
    · exact pure nofun
  · exact pure nofun

theorem string? (v : Value) : Obeys P (Eval.string? v) ⊤ := by
  unfold Eval.string?
  split
  · exact (object _).andThen fun o => by split <;> exact done _
  · exact done _

theorem items? (v : Value) : Obeys P (Eval.items? v) ⊤ := by
  unfold Eval.items?
  split
  · exact (object _).andThen fun o => by split <;> exact done _
  · exact (object _).andThen fun o => by split <;> exact done _
  · exact done _

theorem map? (v : Value) : Obeys P (Eval.map? v) ⊤ := by
  unfold Eval.map?
  split
  · exact (object _).andThen fun o => by split <;> exact done _
  · exact done _

theorem set? (v : Value) : Obeys P (Eval.set? v) ⊤ := by
  unfold Eval.set?
  split
  · exact (object _).andThen fun o => by split <;> exact done _
  · exact done _

theorem embed (v : Value) : Obeys P (Eval.embed v) ⊤ :=
  changeGet (fun _ _ => .single (.embed v) rfl rfl rfl rfl rfl rfl) fun _ _ => trivial

theorem embedded (handle : Nat) : Obeys P (Eval.embedded handle) ⊤ := by
  refine get fun s _ => ?_
  split
  · exact done _
  · exact defect (P.ordinary trivial)

/-! ### Collection and calls -/

theorem maybeCollect_eq (roots : Unit → List Node) {s : Session} (hs : s.Sound P) :
    ∃ t, Eval.maybeCollect roots s = .ok () t ∧ s.Leads P t := by
  have collect : Eval.maybeCollect roots s = ((if s.wantsCollection = true then
      set (s.collectGarbage (roots ())).1 else Pure.pure PUnit.unit : Eval PUnit) s) := rfl
  rw [collect]
  split
  · next wanted =>
    have loud : ¬ P.quiet := fun quiet => by
      have held := hs.inhibited quiet
      simp only [Session.wantsCollection, Bool.and_eq_true, beq_iff_eq] at wanted
      omega
    exact ⟨_, rfl, .single (.collect loud _) rfl rfl rfl rfl rfl rfl⟩
  · exact ⟨s, rfl, .refl s⟩

theorem maybeCollect (roots : Unit → List Node) : Obeys P (Eval.maybeCollect roots) ⊤ := by
  intro s hs
  obtain ⟨t, ht, leads⟩ := maybeCollect_eq roots hs
  rw [ht]
  exact .ok leads trivial

theorem withoutCollection {x : Eval α} (h : Obeys P x Q) : Obeys P (Eval.withoutCollection x) Q := by
  intro s hs
  have given : Change P s { s with inhibited := s.inhibited + 1 } :=
    .inhibit (s.inhibited + 1) fun _ => Nat.succ_pos _
  refine Ends.always (.single given) (h _ (hs.change given)) (fun u => ⟨rfl, rfl, rfl⟩) fun u hu =>
    ⟨⟨?_, ?_, hu.nesting, hu.attribution, hu.floor, hu.operands⟩, hu.callDepth⟩
  · refine ((Evolves.single given).trans hu.evolves).tail (.inhibit (u.inhibited - 1) fun quiet => ?_)
    simpa [hu.inhibited] using hs.inhibited quiet
  · simp [hu.inhibited]

/-- The table of the surrounding call is back in place afterwards. -/
theorem attributed {x : Eval α} (h : Obeys P x Q) (site : Location) (arguments : List Location) :
    Obeys P (Eval.attributed site arguments x) Q := by
  intro s hs
  have given : Change P s { s with attribution := .ofArguments site arguments } :=
    .counters s.callDepth s.nesting (.ofArguments site arguments)
  refine Ends.always (.single given) (h.blaming site _ (hs.change given)) (fun u => ⟨rfl, rfl, rfl⟩)
    fun u hu => ⟨⟨?_, hu.inhibited, hu.nesting, rfl, hu.floor, hu.operands⟩, hu.callDepth⟩
  exact ((Evolves.single given).trans hu.evolves).tail
    (.counters u.callDepth u.nesting s.attribution)

theorem enterCall_eq (s : Session) : Eval.enterCall s =
    if s.limits.callDepth ≤ s.callDepth then
      .error (.fault (.of (.callsTooDeep s.limits.callDepth))) s
    else .ok () { s with callDepth := s.callDepth + 1 } := by
  change (if _ then _ else _ : Eval PUnit) s = _
  split <;> rfl

/-- A call that is counted while it runs. -/
theorem called {x : Eval α} (h : Obeys P x Q) :
    Obeys P (do Eval.enterCall; Eval.always Eval.leaveCall x) Q := by
  intro s hs
  have given : Change P s { s with callDepth := s.callDepth + 1 } :=
    .counters (s.callDepth + 1) s.nesting s.attribution
  have entered := enterCall_eq s
  split at entered
  · rw [Eval.bind_eq_of_error entered]
    exact .fault (.refl s) (P.ordinary trivial)
  · rw [Eval.bind_eq_of_ok entered]
    refine Ends.always (.single given) (h _ (hs.change given)) (fun u => ⟨rfl, rfl, rfl⟩) fun u hu =>
      ⟨⟨?_, hu.inhibited, hu.nesting, hu.attribution, hu.floor, hu.operands⟩,
        by simp [Eval.leaveCall, hu.callDepth]⟩
    exact ((Evolves.single given).trans hu.evolves).tail
      (.counters (u.callDepth - 1) u.nesting u.attribution)

theorem callSite : Obeys P Eval.callSite ⊤ := get fun _ _ => done _

theorem failAt (i : Nat) {c : Cause} (h : P.mayFail c) : Obeys P (Eval.failAt i c : Eval α) Q :=
  get fun _ _ => fail (by simpa [Fault.of] using h)

theorem write (text : String) : Obeys P (Eval.write text) ⊤ :=
  change fun _ _ => .single (.write _) rfl rfl rfl rfl rfl rfl

/-- Nothing changes if the number of nested calls is set to what it is. -/
theorem setCallDepth {s : Session} {n : Nat} (h : s.callDepth = n) :
    Ends P s ⊤ (Eval.setCallDepth n s) := by
  subst h
  exact .ok (.refl s) trivial

/-! ### Data -/

theorem keyOf (v : Value) : Obeys P (Eval.keyOf v) ⊤ := by
  refine get fun s _ => ?_
  unfold Eval.resolving
  split
  · exact done _
  · exact defect (P.ordinary trivial)

theorem areEqual (v w : Value) : Obeys P (Eval.areEqual v w) ⊤ := by
  refine get fun s _ => ?_
  unfold Eval.resolving
  split
  · exact done _
  · exact defect (P.ordinary trivial)

theorem insertEntries (m : OrderedMap) (entries : List (Value × Value)) :
    Obeys P (Eval.insertEntries m entries) ⊤ :=
  foldlM (fun _ _ _ => (keyOf _).andThen fun _ => done _) trivial

theorem insertMembers (s : OrderedSet) (members : List Value) :
    Obeys P (Eval.insertMembers s members) ⊤ :=
  foldlM (fun _ _ _ => (keyOf _).andThen fun _ => done _) trivial

theorem newMap (entries : List (Value × Value)) : Obeys P (Eval.newMap entries) ⊤ :=
  (insertEntries _ _).andThen fun _ => new nofun

theorem newSet (members : List Value) : Obeys P (Eval.newSet members) ⊤ :=
  (insertMembers _ _).andThen fun _ => new nofun

theorem raiseAt (l : Location) (payload : Value) : Obeys P (Eval.raiseAt l payload : Eval α) Q :=
  get fun _ _ => fail (by
    rw [Fault.cause_located]
    exact P.ordinary trivial)

theorem caught (f : Fault) : Obeys P (Eval.caught f) ⊤ := by
  unfold Eval.caught
  split
  · exact done _
  · refine (keyword _).andThen fun _ => (keyword _).andThen fun _ => (keyword _).andThen fun _ => ?_
    exact (newString _).andThen fun _ => newMap _

end Obeys

end TwinLisp
