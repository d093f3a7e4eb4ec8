import TwinLisp.Library.Native
import TwinLisp.Proofs.Conduct.Keeping
import TwinLisp.Proofs.Conduct.Primitives
import TwinLisp.Proofs.Heap.Depth

/-!
# Making data

The code of a template calls functions that make collections. Besides making data, they do nothing that shows,
and they do the same wherever they are called. Between such calls and around them the evaluators themselves make
data for literals, learn names, and collect garbage.

A value that is kept goes on containing what it contains, through all this and through everything else that is
evaluated meanwhile. Atoms are the exception: they are kept, but what they hold may change.

## Main definitions

* `Session.Idles`: nothing has happened that shows, and `Session.Refuses`: not even one more object is made.
* `Session.Saves`: everything contained in some values is still there.
* `Session.Gains`: there is more data, and everything that was there before.
* `Eval.MakesData`: a computation that makes data.
* `Eval.Imitates`: a computation does within native calls what another one does.

## Main statements

* `Eval.MakesData.run`: built-in functions that make data.
* `Template.imitates_native` and `Template.imitates_apply`: they make it when they are called or applied, too.
-/

namespace TwinLisp

/-- Functions are no atoms. -/
theorem Object.function_ne_atom (f : Function) (u : Value) : Object.function f ≠ .atom u := nofun

namespace Session

variable {s t u : Session} {v w : Value} {vs ws : List Value}

/-! ### What is contained in values -/

/-- What a value contains. An atom is taken as it is; nothing is looked up in it. -/
inductive Contains (s : Session) (v : Value) : Value → Prop where
  | self : Contains s v v
  | part {k : Kind} {a : Address} {o : Object} {w : Value} (before : Contains s v (.ref k a))
    (h : s.heap.get? a = some o) (data : ∀ u, o ≠ .atom u) (hw : w ∈ o.parts) : Contains s v w

/-- Everything contained in some values is still there. -/
structure Saves (vs : List Value) (s t : Session) : Prop where
  before : s.heap.Sound
  after : t.heap.Sound
  object {v : Value} {k : Kind} {a : Address} {o : Object} (hv : v ∈ vs) (h : s.Contains v (.ref k a))
    (ho : s.heap.get? a = some o) : ∃ o', t.heap.get? a = some o' ∧ o.Stays True o'

theorem Contains.trans {x : Value} (h : s.Contains v w) (h' : s.Contains w x) : s.Contains v x := by
  induction h' with
  | self => exact h
  | part _ ho data hw ih => exact ih.part ho data hw

namespace Saves

/-- An object that is no atom is saved as it is. -/
theorem data (h : s.Saves vs t) {k : Kind} {a : Address} {o : Object} (hv : v ∈ vs)
    (hc : s.Contains v (.ref k a)) (ho : s.heap.get? a = some o) (data : ∀ u, o ≠ .atom u) :
    t.heap.get? a = some o := by
  obtain ⟨o', ho', stays⟩ := h.object hv hc ho
  cases stays with
  | same => exact ho'
  | written _ u => exact absurd rfl (data u)

/-- What is saved contains what it contained. -/
theorem contains (h : s.Saves vs t) (hv : v ∈ vs) (hc : s.Contains v w) : t.Contains v w := by
  induction hc with
  | self => exact .self
  | part before ho data hw ih => exact ih.part (h.data hv before ho data) data hw

theorem trans (h : s.Saves vs t) (h' : t.Saves vs u) : s.Saves vs u where
  before := h.before
  after := h'.after
  object hv hc ho := by
    obtain ⟨o', ho', stays⟩ := h.object hv hc ho
    obtain ⟨o'', ho'', stays'⟩ := h'.object hv (h.contains hv hc) ho'
    exact ⟨o'', ho'', stays.trans stays'⟩

/-- What is contained in saved values is saved. -/
theorem within (h : s.Saves vs t) (hw : ∀ w ∈ ws, ∃ v ∈ vs, s.Contains v w) : s.Saves ws t where
  before := h.before
  after := h.after
  object {w _ _ _} hm hc ho := by
    obtain ⟨v, hv, inside⟩ := hw w hm
    exact h.object hv (inside.trans hc) ho

end Saves

/-! ### What sessions do by themselves -/

/-- Something happens that does not show. -/
inductive Idle (s : Session) : Session → Prop where
  | intern (name : String) : Idle s { s with symbols := (s.symbols.intern name).1 }
  | place {o : Object} (data : o.isIdentity = false) : Idle s { s with heap := (s.heap.place o).1 }
  | collect (roots : List Node) : Idle s (s.collectGarbage roots).1

/-- Nothing has happened that shows: names were learned, data was made and objects were reclaimed. -/
def Idles : Session → Session → Prop := Relation.ReflTransGen Idle

/-- One more object is refused for this cause, though nothing has happened that shows. -/
inductive Refuses (s : Session) : Cause → Prop where
  | ended {t : Session} (idles : s.Idles t) (h : t.terminated = true) : Refuses s .terminated
  | full {t : Session} (idles : s.Idles t) (h : t.heap.isFull = true) : Refuses s (.heapFull t.heap.stats.live)

theorem Idles.refuses {c : Cause} (h : s.Idles t) (refuses : t.Refuses c) : s.Refuses c := by
  cases refuses with
  | ended idles ended => exact .ended (Relation.ReflTransGen.trans h idles) ended
  | full idles full => exact .full (Relation.ReflTransGen.trans h idles) full

/-- There is more data, and everything that was there before. -/
structure Gains (s t : Session) : Prop where
  idles : s.Idles t
  sound : t.heap.Sound
  object {a : Address} {o : Object} : s.heap.get? a = some o → t.heap.get? a = some o

namespace Gains

theorem refl (hs : s.heap.Sound) : s.Gains s := ⟨.refl, hs, id⟩

theorem trans (h : s.Gains t) (h' : t.Gains u) : s.Gains u :=
  ⟨Relation.ReflTransGen.trans h.idles h'.idles, h'.sound, fun ho => h'.object (h.object ho)⟩

theorem saves (h : s.Gains t) (hs : s.heap.Sound) (vs : List Value) : s.Saves vs t :=
  ⟨hs, h.sound, fun _ _ ho => ⟨_, h.object ho, .same _⟩⟩

theorem place (hs : s.heap.Sound) {o : Object} (data : o.isIdentity = false) :
    s.Gains { s with heap := (s.heap.place o).1 } :=
  ⟨.single (.place data), hs.place o, fun ho => by
    rwa [Heap.get?_place_of_known o hs (Heap.known_of_get? ho)]⟩

end Gains

/-- The session inside a native call, to which a machine may have lent operands. -/
def inside (s : Session) (attribution : Attribution) (inhibited : Nat) (operands : Array Value) : Session :=
  { s with attribution, inhibited, operands }

end Session

/-! ### Computations that make data -/

/-- A computation makes data and does nothing else. It does the same inside native calls, where it may blame
something else if it fails. -/
structure Eval.MakesData {α : Type} (x : Eval α) : Prop where
  value {s t : Session} {a : α} (hs : s.heap.Sound) (h : x s = .ok a t) :
    s.Gains t ∧ ∀ A n os, x (s.inside A n os) = .ok a (t.inside A n os)
  failure {s t : Session} {f : Fault} (hs : s.heap.Sound) (h : x s = .error (.fault f) t) (A : Attribution) (n : Nat)
    (os : Array Value) : ∃ g u, x (s.inside A n os) = .error (.fault g) u ∧ g.cause = f.cause
  settled {s t : Session} (hs : s.heap.Sound) : x s ≠ .error .outOfFuel t

namespace Eval

/-- A computation goes on alike after a step with the same result. -/
theorem bind_congr {α β : Type} {x y : Eval α} {f g : α → Eval β} {s : Session} (hxy : x s = y s)
    (hfg : ∀ a t, x s = .ok a t → f a t = g a t) : (x >>= f) s = (y >>= g) s := by
  cases ran : x s with
  | ok a t => rw [bind_eq_of_ok ran, bind_eq_of_ok (hxy ▸ ran), hfg a t ran]
  | error e t => rw [bind_eq_of_error ran, bind_eq_of_error (hxy ▸ ran)]

namespace MakesData

variable {α β : Type}

theorem pure (a : α) : MakesData (Pure.pure a) where
  value hs h := by
    cases h
    exact ⟨.refl hs, fun _ _ _ => rfl⟩
  failure _ h := by cases h
  settled _ h := by cases h

theorem fail (f : Fault) : MakesData (Eval.fail f : Eval α) where
  value _ h := by cases h
  failure _ h _ _ _ := by
    cases h
    exact ⟨f, _, rfl, rfl⟩
  settled _ h := by cases h

theorem failAt (i : Nat) (c : Cause) : MakesData (Eval.failAt i c : Eval α) where
  value _ h := by cases h
  failure _ h _ _ _ := by
    cases h
    exact ⟨_, _, rfl, by simp⟩
  settled _ h := by cases h

theorem bind {x : Eval α} {f : α → Eval β} (hx : MakesData x) (hf : ∀ a, MakesData (f a)) :
    MakesData (x >>= f) where
  value {s t b} hs h := by
    cases ran : x s with
    | ok a u =>
      obtain ⟨gains, same⟩ := hx.value hs ran
      obtain ⟨gains', same'⟩ := (hf a).value gains.sound ((bind_eq_of_ok ran).symm.trans h)
      exact ⟨gains.trans gains', fun A n os => (bind_eq_of_ok (same A n os)).trans (same' A n os)⟩
    | error e u => cases (bind_eq_of_error ran).symm.trans h
  failure {s t g} hs h A n os := by
    cases ran : x s with
    | ok a u =>
      obtain ⟨gains, same⟩ := hx.value hs ran
      rw [bind_eq_of_ok (same A n os)]
      exact (hf a).failure gains.sound ((bind_eq_of_ok ran).symm.trans h) A n os
    | error e u =>
      cases (bind_eq_of_error ran).symm.trans h
      obtain ⟨g', u', failed, cause⟩ := hx.failure hs ran A n os
      exact ⟨g', u', bind_eq_of_error failed, cause⟩
  settled {s t} hs h := by
    cases ran : x s with
    | ok a u =>
      exact (hf a).settled (hx.value hs ran).1.sound ((bind_eq_of_ok ran).symm.trans h)
    | error e u =>
      cases (bind_eq_of_error ran).symm.trans h
      exact hx.settled hs ran

/-- A computation may look at the session, but not at the native call that runs, nor at operands. -/
theorem get {f : Session → Eval α} (h : ∀ s, MakesData (f s)) (same : ∀ s A n os, f (s.inside A n os) = f s) :
    MakesData (MonadState.get >>= f) where
  value {s t a} hs ran := by
    obtain ⟨gains, again⟩ := (h s).value hs ran
    exact ⟨gains, fun A n os => (congrFun (same s A n os) _).trans (again A n os)⟩
  failure {s t g} hs ran A n os := by
    obtain ⟨g', u, failed, cause⟩ := (h s).failure hs ran A n os
    exact ⟨g', u, (congrFun (same s A n os) _).trans failed, cause⟩
  settled {s t} hs ran := (h s).settled hs ran

theorem mapM {f : α → Eval β} (h : ∀ a, MakesData (f a)) (xs : List α) : MakesData (xs.mapM f) := by
  induction xs with
  | nil =>
    rw [List.mapM_nil]
    exact pure []
  | cons x xs ih =>
    rw [List.mapM_cons]
    exact (h x).bind fun _ => ih.bind fun _ => pure _

theorem foldlM {f : β → α → Eval β} (h : ∀ b a, MakesData (f b a)) (xs : List α) (b : β) :
    MakesData (xs.foldlM f b) := by
  induction xs generalizing b with
  | nil =>
    rw [List.foldlM_nil]
    exact pure b
  | cons x xs ih =>
    rw [List.foldlM_cons]
    exact (h b x).bind ih

/-! ### Objects -/

/-- A new object is there, unless it is refused. -/
theorem new_eq (o : Object) (s : Session) : Eval.new o s =
    if s.terminated then .error (.fault (.of .terminated)) s
    else if s.heap.isFull then .error (.fault (.of (.heapFull s.heap.stats.live))) { s with terminated := true }
    else .ok (.ref o.kind (s.heap.place o).2) { s with heap := (s.heap.place o).1 } := by
  have alive : Eval.checkAlive s = (if s.terminated then Eval.failWith .terminated else Pure.pure () : Eval Unit) s :=
    rfl
  split
  · next ended =>
    rw [if_pos ended] at alive
    exact bind_eq_of_error (bind_eq_of_error alive)
  · next going =>
    rw [if_neg going] at alive
    have alloc : Eval.alloc o s = if s.heap.isFull then
        .error (.fault (.of (.heapFull s.heap.stats.live))) { s with terminated := true }
        else .ok (s.heap.place o).2 { s with heap := (s.heap.place o).1 } := bind_eq_of_ok alive
    split
    · next full =>
      rw [if_pos full] at alloc
      exact bind_eq_of_error alloc
    · next room =>
      rw [if_neg room] at alloc
      exact bind_eq_of_ok alloc

theorem refused_of_new {o : Object} {s t : Session} {f : Fault} (h : Eval.new o s = .error (.fault f) t) :
    s.Refuses f.cause := by
  rw [new_eq] at h
  split at h
  · next ended =>
    cases h
    exact .ended .refl ended
  · split at h
    · next full =>
      cases h
      exact .full .refl full
    · cases h

theorem new {o : Object} (data : o.isIdentity = false) : MakesData (Eval.new o) where
  value {s t v} hs h := by
    rw [new_eq] at h
    split at h
    · cases h
    · next going =>
      split at h
      · cases h
      · next room =>
        cases h
        refine ⟨.place hs data, fun A n os => ?_⟩
        rw [new_eq, if_neg (show ¬ (s.inside A n os).terminated = true from going),
          if_neg (show ¬ (s.inside A n os).heap.isFull = true from room)]
        rfl
  failure {s t f} _ h A n os := by
    rw [new_eq] at h ⊢
    split at h
    · next ended =>
      cases h
      exact ⟨_, _, if_pos ended, rfl⟩
    · next going =>
      split at h
      · next full =>
        cases h
        exact ⟨_, _, (if_neg going).trans (if_pos full), rfl⟩
      · cases h
  settled {s t} _ h := by
    rw [new_eq] at h
    split at h
    · cases h
    · split at h <;> cases h

theorem object (a : Address) : MakesData (Eval.object a) := by
  unfold Eval.object
  refine get (fun s => ?_) fun _ _ _ _ => rfl
  split
  · exact pure _
  · exact fail _

theorem items? (v : Value) : MakesData (Eval.items? v) := by
  unfold Eval.items?
  split
  · exact (object _).bind fun o => by split <;> exact pure _
  · exact (object _).bind fun o => by split <;> exact pure _
  · exact pure _

theorem set? (v : Value) : MakesData (Eval.set? v) := by
  unfold Eval.set?
  split
  · exact (object _).bind fun o => by split <;> exact pure _
  · exact pure _

theorem map? (v : Value) : MakesData (Eval.map? v) := by
  unfold Eval.map?
  split
  · exact (object _).bind fun o => by split <;> exact pure _
  · exact pure _

theorem string? (v : Value) : MakesData (Eval.string? v) := by
  unfold Eval.string?
  split
  · exact (object _).bind fun o => by split <;> exact pure _
  · exact pure _

theorem keyOf (v : Value) : MakesData (Eval.keyOf v) := by
  unfold Eval.keyOf
  refine get (fun s => ?_) fun _ _ _ _ => rfl
  cases s.heap.key v with
  | ok k => exact pure k
  | error a => exact fail _

theorem newMap (entries : List (Value × Value)) : MakesData (Eval.newMap entries) :=
  (foldlM (fun _ _ => (keyOf _).bind fun _ => pure _) entries _).bind fun _ => new rfl

theorem newSet (members : List Value) : MakesData (Eval.newSet members) :=
  (foldlM (fun _ _ => (keyOf _).bind fun _ => pure _) members _).bind fun _ => new rfl

/-! ### Built-in functions -/

theorem elements (b : Builtin) (i : Nat) (v : Value) : MakesData (Library.elements b i v) := by
  unfold Library.elements
  split
  · exact pure _
  · exact (items? _).bind fun _ => pure _
  · exact (items? _).bind fun _ => pure _
  · exact (set? _).bind fun _ => pure _
  · exact (map? _).bind fun _ => mapM (fun _ => new rfl) _
  · exact (string? _).bind fun _ => pure _
  · exact failAt _ _

theorem onlyElements (b : Builtin) (vs : List Value) : MakesData (Library.onlyElements b vs) := by
  unfold Library.onlyElements
  split
  · exact elements ..
  · exact fail _

/-- **These functions make data and do nothing else**, whoever calls functions for them. -/
theorem run {b : Builtin} (h : b ∈ [.list, .vector, .hashMap, .hashSet, .concat, .seq]) (call : Caller)
    (vs : List Value) : MakesData (Library.run call b vs) := by
  simp only [List.mem_cons, List.not_mem_nil, or_false] at h
  rcases h with rfl | rfl | rfl | rfl | rfl | rfl
  · exact new rfl
  · exact new rfl
  · change MakesData (if _ then _ else _)
    split
    · exact fail _
    · exact newMap _
  · exact newSet _
  · exact (mapM (fun _ => elements ..) _).bind fun _ => new rfl
  · refine (onlyElements ..).bind fun _ => ?_
    split
    · exact pure _
    · exact pure _
    · exact new rfl

end MakesData

/-! ### Native calls -/

/-- From `s` on, `x` does within any native call what `y` does there. It may blame something else if it fails. -/
def Imitates {α : Type} (x y : Eval α) (s : Session) : Prop := ∀ A n os,
  (∀ a t, y s = .ok a t → x (s.inside A n os) = .ok a (t.inside A n os)) ∧
    ∀ f t, y s = .error (.fault f) t → ∃ g u, x (s.inside A n os) = .error (.fault g) u ∧ g.cause = f.cause

namespace Imitates

variable {α β : Type} {x y : Eval α} {s : Session}

theorem of_makesData (hx : MakesData x) (hs : s.heap.Sound) : Imitates x x s := fun A n os =>
  ⟨fun _ _ h => (hx.value hs h).2 A n os, fun _ _ h => hx.failure hs h A n os⟩

theorem bind {f g : α → Eval β} (h : Imitates x y s) (hfg : ∀ a t, y s = .ok a t → Imitates (f a) (g a) t) :
    Imitates (x >>= f) (y >>= g) s := by
  intro A n os
  cases ran : y s with
  | ok a t =>
    rw [bind_eq_of_ok ran, bind_eq_of_ok ((h A n os).1 a t ran)]
    exact hfg a t ran A n os
  | error e t =>
    rw [bind_eq_of_error ran]
    refine ⟨nofun, fun c u failed => ?_⟩
    cases failed
    obtain ⟨g, v, failed, cause⟩ := (h A n os).2 c t ran
    exact ⟨g, v, bind_eq_of_error failed, cause⟩

/-- A native call imitates what is imitated in it. -/
theorem native (h : Imitates x y s) (site : Location) (arguments : List Location) :
    Imitates (Eval.attributed site arguments (Eval.withoutCollection x)) y s := by
  intro A n os
  have native : Eval.attributed site arguments (Eval.withoutCollection x) (s.inside A n os) =
      Eval.always (fun t => { t with attribution := A })
        (Eval.blaming site (Eval.always (fun t => { t with inhibited := t.inhibited - 1 }) x))
        (s.inside (.ofArguments site arguments) (n + 1) os) := rfl
  obtain ⟨ok, failing⟩ := h (.ofArguments site arguments) (n + 1) os
  constructor
  · intro a t ran
    rw [native, Eval.always, Eval.blaming, Eval.mapFault, Eval.always, ok a t ran]
    rfl
  · intro f t ran
    obtain ⟨g, u, failed, cause⟩ := failing f t ran
    rw [native, Eval.always, Eval.blaming, Eval.mapFault, Eval.always, failed]
    exact ⟨_, _, rfl, by rw [Fault.cause_orAt, cause]⟩

/-- What imitates something that makes data makes the same data, on whatever operands. -/
theorem lent (h : Imitates x y s) (hy : MakesData y) (hs : s.heap.Sound) (os : Array Value) :
    (∀ a t, y s = .ok a t → x { s with operands := os } = .ok a { t with operands := os } ∧ t.operands = s.operands) ∧
      ∀ f t, y s = .error (.fault f) t →
        ∃ g u, x { s with operands := os } = .error (.fault g) u ∧ g.cause = f.cause := by
  obtain ⟨ok, failing⟩ := h s.attribution s.inhibited os
  refine ⟨fun a t ran => ?_, failing⟩
  have back : t = t.inside s.attribution s.inhibited s.operands := by
    have again : y s = .ok a (t.inside s.attribution s.inhibited s.operands) := (hy.value hs ran).2 _ _ _
    exact (EStateM.Result.ok.inj (ran.symm.trans again)).2
  have made : x { s with operands := os } = .ok a (t.inside s.attribution s.inhibited os) := ok a t ran
  rw [back]
  exact ⟨made, rfl⟩

theorem makes (h : Imitates x y s) (hy : MakesData y) (hs : s.heap.Sound) :
    (∀ a t, y s = .ok a t → x s = .ok a t) ∧
      ∀ f t, y s = .error (.fault f) t → ∃ g u, x s = .error (.fault g) u ∧ g.cause = f.cause := by
  obtain ⟨ok, failing⟩ := h.lent hy hs s.operands
  refine ⟨fun a t ran => ?_, failing⟩
  obtain ⟨made, same⟩ := ok a t ran
  exact made.trans (congrArg (fun os => EStateM.Result.ok a { t with operands := os }) same.symm)

end Imitates

end Eval

/-! ### Calls of built-in functions -/

namespace Template

/-- Functions are called by no one. -/
def noCaller : Caller := fun _ _ => throw .outOfFuel

/-- Functions are called in such a way that native ones run. -/
def CallsNatives (natives : NativeRunner) (call : Caller) : Prop :=
  ∀ {s : Session} {a : Address} {f : Function} {n : Native} (args : List Value),
    s.heap.get? a = some (.function f) → f.body = .native n → ∃ site inner,
      call (.ref .function a) args s = Eval.attributed site [] (natives inner n args) s

variable {hosts : HostTable} {s : Session} {b : Builtin}

/-- A function that makes data makes it when it is called, too. -/
theorem imitates_native (h : b ∈ [.list, .vector, .hashMap, .hashSet, .concat, .seq]) (call : Caller) (vs : List Value)
    (hs : s.heap.Sound) (site : Location) (arguments : List Location) :
    Eval.Imitates (Eval.attributed site arguments (Eval.runNative hosts call (.builtin b) vs))
      (Library.run noCaller b vs) s := by
  have same : Library.run call b vs = Library.run noCaller b vs := by
    simp only [List.mem_cons, List.not_mem_nil, or_false] at h
    rcases h with rfl | rfl | rfl | rfl | rfl | rfl <;> rfl
  have inner := Eval.Imitates.of_makesData (.run h noCaller vs) hs
  exact (same ▸ inner : Eval.Imitates (Library.run call b vs) _ s).native site arguments

/-- So does its application. -/
theorem imitates_apply (h : b ∈ [.list, .vector, .hashMap, .hashSet, .concat, .seq]) {call : Caller}
    (calls : CallsNatives (Eval.runNative hosts) call) {a : Address} {f : Function}
    (hf : s.heap.get? a = some (.function f)) (body : f.body = .native (.builtin b)) (v : Value)
    (hs : s.heap.Sound) (site : Location) (arguments : List Location) :
    Eval.Imitates (Eval.attributed site arguments (Eval.runNative hosts call (.builtin .apply) [.ref .function a, v]))
      (do Library.run noCaller b (← Library.elements .apply 1 v)) s := by
  refine Eval.Imitates.native (x := Library.apply call [.ref .function a, v]) ?_ site arguments
  have makes := Eval.MakesData.elements .apply 1 v
  refine (Eval.Imitates.of_makesData makes hs).bind fun items t ran A n os => ?_
  obtain ⟨gains, -⟩ := makes.value hs ran
  obtain ⟨site, inner, called⟩ := calls (s := t.inside A n os) items (gains.object hf) body
  have imitates : Eval.Imitates (Eval.attributed site [] (Eval.runNative hosts inner (.builtin b) items))
      (Library.run noCaller b items) t := imitates_native h inner items gains.sound site []
  obtain ⟨ok, failing⟩ := imitates A n os
  refine ⟨fun u v made => ?_, fun g v failed => ?_⟩
  · exact called.trans (ok u v made)
  · obtain ⟨g', v', failed, cause⟩ := failing g v failed
    exact ⟨g', v', called.trans failed, cause⟩

end Template

end TwinLisp
