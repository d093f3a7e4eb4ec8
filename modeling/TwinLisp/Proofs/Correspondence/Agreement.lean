import TwinLisp.Proofs.Correspondence.Session

/-!
# Computations that agree

Two computations agree if, started in sessions that correspond, they end in sessions that correspond,
in the same way: both with results that are related, or both with the same fault. The first one may
also end its session because its heap is full, and then nothing is said, unless both are one session;
the second one may do so as well, if the setting allows it.

A computation may collect, so that what corresponded before need not correspond afterwards. What does
is *preserved*: everything that is to be kept, and whatever a computation does not let be
collected, goes on to correspond.

## Main definitions

* `Preserves`, `Agree` and `Sim`.

## Main statements

* `Agree.bind` and its like: computations that are put together in the same way of parts that agree
  agree.
-/

namespace TwinLisp

/-! ### What goes on to correspond -/

/-- What corresponds before a computation on `s` and still does when it has led to `s'`: the nodes
in `K`, everything if collection was forbidden, and the handles that count as in use. -/
structure Preserves (K : Node → Prop) (w : World) (s : Session) (w' : World) (s' : Session) : Prop where
  isSelf : w'.isSelf ↔ w.isSelf
  sym : ∀ {x y}, w.sym x y → w'.sym x y
  pair : ∀ {a b}, w.pair a b → w'.pair a b
  objects : ∀ {k a b}, K (.object a) ∨ 0 < s.inhibited → w.live k a b → w'.live k a b
  scopes : ∀ {i}, K (.scope i) ∨ 0 < s.inhibited → w.scope i → w'.scope i
  handles : ∀ {n}, K (.handle n) ∨ 0 < s.inhibited ∨ (∃ k, s.heap.floor = some k ∧ k ≤ n) →
    w.handle n → w'.handle n
  /-- Only atoms change. -/
  fixed : ∀ {k a b o}, K (.object a) ∨ 0 < s.inhibited → w.live k a b → k ≠ .atom →
    s.heap.get? a = some o → s'.heap.get? a = some o
  floor : s'.heap.floor = s.heap.floor
  inhibited : s'.inhibited = s.inhibited
  nesting : s'.nesting = s.nesting

/-- Every node. -/
def everything : Node → Prop := fun _ => True

/-- No node. -/
def nothing : Node → Prop := fun _ => False

namespace Preserves

variable {K K' : Node → Prop} {w w' w'' : World} {s s' s'' : Session}

theorem refl (K : Node → Prop) (w : World) (s : Session) : Preserves K w s w s :=
  ⟨.rfl, id, id, fun _ => id, fun _ => id, fun _ => id, fun _ _ _ => id, rfl, rfl, rfl⟩

theorem trans (h : Preserves K w s w' s') (h' : Preserves K w' s' w'' s'') : Preserves K w s w'' s'' where
  isSelf := h'.isSelf.trans h.isSelf
  sym := h'.sym ∘ h.sym
  pair := h'.pair ∘ h.pair
  objects hk hl := h'.objects (h.inhibited ▸ hk) (h.objects hk hl)
  scopes hk hl := h'.scopes (h.inhibited ▸ hk) (h.scopes hk hl)
  handles hk hl := h'.handles (h.inhibited ▸ h.floor ▸ hk) (h.handles hk hl)
  fixed hk hl ha ho := h'.fixed (h.inhibited ▸ hk) (h.objects hk hl) ha (h.fixed hk hl ha ho)
  floor := h'.floor.trans h.floor
  inhibited := h'.inhibited.trans h.inhibited
  nesting := h'.nesting.trans h.nesting

theorem weaken (h : Preserves K w s w' s') (hK : ∀ n, K' n → K n) : Preserves K' w s w' s' where
  isSelf := h.isSelf
  sym := h.sym
  pair := h.pair
  objects hk := h.objects (hk.imp_left (hK _))
  scopes hk := h.scopes (hk.imp_left (hK _))
  handles hk := h.handles (hk.imp_left (hK _))
  fixed hk := h.fixed (hk.imp_left (hK _))
  floor := h.floor
  inhibited := h.inhibited
  nesting := h.nesting

/-- Where collection is forbidden everything is kept. -/
theorem quiet (h : Preserves K w s w' s') (hq : 0 < s.inhibited) : Preserves K' w s w' s' where
  isSelf := h.isSelf
  sym := h.sym
  pair := h.pair
  objects _ := h.objects (.inr hq)
  scopes _ := h.scopes (.inr hq)
  handles _ := h.handles (.inr (.inl hq))
  fixed _ := h.fixed (.inr hq)
  floor := h.floor
  inhibited := h.inhibited
  nesting := h.nesting

theorem le (h : Preserves everything w s w' s') : w ≤ w' :=
  ⟨h.isSelf, h.sym, h.pair, h.objects (.inl trivial), h.scopes (.inl trivial), h.handles (.inl trivial)⟩

/-- Values whose objects are kept go on to correspond. -/
theorem value {v v' : Value} (h : Preserves K w s w' s') (hv : v.Match w v')
    (hK : ∀ n ∈ Node.ofValue v, K n) : v.Match w' v' := by
  cases hv with
  | symbol hx => exact .symbol (h.sym hx)
  | keyword hx => exact .keyword (h.sym hx)
  | ref k hl => exact .ref k (h.objects (.inl (hK _ (by simp [Node.ofValue]))) hl)
  | _ => constructor

theorem values {vs vs' : List Value} (h : Preserves K w s w' s') (hv : Value.MatchAll w vs vs')
    (hK : ∀ n ∈ Node.ofValues vs, K n) : Value.MatchAll w' vs vs' :=
  forall₂_imp_of_mem hv fun _ hm _ _ hv =>
    h.value hv fun n hn => hK n (List.mem_flatMap.2 ⟨_, hm, hn⟩)

end Preserves

/-- The cause is that an object was not there. -/
def Cause.isLoss : Cause → Bool
  | .defect (.dangling _) => true
  | .defect (.unknownObject _) => true
  | .defect (.unexpectedObject _ _) => true
  | _ => false

/-- Two faults correspond. Neither is the loss of an object. -/
structure Fault.Match (w : World) (f g : Fault) : Prop where
  cause : f.cause = g.cause
  location : f.location = g.location
  payload : Option.Rel (Value.Match w) f.payload g.payload
  noLoss : f.cause.isLoss = false

namespace Fault.Match

variable {w w' : World} {f g : Fault}

theorem mono (h : f.Match w g) (hw : w ≤ w') : f.Match w' g :=
  ⟨h.cause, h.location, Option.Rel.imp h.payload fun _ _ hv => hv.mono hw, h.noLoss⟩

theorem of (w : World) (c : Cause) (noLoss : c.isLoss = false) :
    (Fault.of c).Match w (.of c) :=
  ⟨rfl, rfl, .none, noLoss⟩

theorem eq (h : f.Match w g) (hs : w.isSelf) : f = g := by
  obtain ⟨cause, payload, location⟩ := f
  obtain ⟨cause', payload', location'⟩ := g
  obtain ⟨rfl, rfl, hv, -⟩ := h
  cases hv with
  | none => rfl
  | some hv => rw [hv.eq hs]

theorem orAt (h : f.Match w g) (l : Location) : (f.orAt l).Match w (g.orAt l) := by
  unfold Fault.orAt
  rw [h.location]
  split
  · exact ⟨h.cause, rfl, h.payload, h.noLoss⟩
  · exact h

theorem located (h : f.Match w g) (l : Location) : (f.located l).Match w (g.located l) := by
  unfold Fault.located
  split
  · exact ⟨h.cause, rfl, h.payload, h.noLoss⟩
  · exact h

theorem isFatal_eq (h : f.Match w g) : f.isFatal = g.isFatal := by
  rw [Fault.isFatal, Fault.kind, h.cause, Fault.isFatal, Fault.kind]

theorem message_eq (h : f.Match w g) : f.message = g.message := by
  rw [Fault.message, h.cause, Fault.message]

theorem kind_eq (h : f.Match w g) : f.kind = g.kind := by
  rw [Fault.kind, h.cause, Fault.kind]

theorem preserved {K : Node → Prop} {s s' : Session} (h : f.Match w g) (hF : Preserves K w s w' s')
    (hK : ∀ v, f.payload = some v → ∀ n ∈ Node.ofValue v, K n) : f.Match w' g := by
  refine ⟨h.cause, h.location, ?_, h.noLoss⟩
  have related := h.payload
  generalize f.payload = x at hK related ⊢
  generalize g.payload = y at related ⊢
  cases related with
  | none => exact .none
  | some hv => exact .some (hF.value hv (hK _ rfl))

end Fault.Match

/-- A relation between results, which depends on what corresponds. -/
abbrev Related (α β : Type) := World → α → β → Prop

/-- The two results of a computation on sessions that correspond in `w`, the first of which is `s`,
agree. -/
inductive Agree (S : Setting) (K : Node → Prop) (w : World) (s : Session) {α β : Type}
    (R : Related α β) : EStateM.Result Stop Session α → EStateM.Result Stop Session β → Prop where
  | ok {a b s' t' w'} : Preserves K w s w' s' → s'.Match S w' t' → R w' a b →
    Agree S K w s R (.ok a s') (.ok b t')
  | fault {f g s' t' w'} : Preserves K w s w' s' → s'.Match S w' t' → f.Match w' g →
    Agree S K w s R (.error (.fault f) s') (.error (.fault g) t')
  | outOfFuel {s' t'} : (w.isSelf → s' = t') →
    Agree S K w s R (.error .outOfFuel s') (.error .outOfFuel t')
  /-- The first session has ended. If both are one, it knows, and the second computation has done the
  same. -/
  | fatal {f s' r} : f.isFatal = true → (w.isSelf → s'.terminated = true ∧ r = .error (.fault f) s') →
    Agree S K w s R (.error (.fault f) s') r
  | fatalRight {g r t'} : S.mayEndRight → g.isFatal = true → Agree S K w s R r (.error (.fault g) t')

namespace Agree

variable {S : Setting} {K K' : Node → Prop} {w w' : World} {s s' t : Session} {α β γ δ : Type}
variable {R : Related α β} {T : Related γ δ}

/-- What a computation keeps, and how its results are related, may be said in another way. -/
theorem map {Q : Related α β} {w₀ : World} {s₀ : Session} {r r'} (h : Agree S K w s R r r')
    (hw : w₀.isSelf → w.isSelf) (hF : ∀ {w' s'}, Preserves K w s w' s' → Preserves K' w₀ s₀ w' s')
    (hR : ∀ {w' s' a b}, Preserves K w s w' s' → R w' a b → Q w' a b) : Agree S K' w₀ s₀ Q r r' := by
  cases h with
  | ok hf hm hr => exact .ok (hF hf) hm (hR hf hr)
  | fault hf hm hg => exact .fault (hF hf) hm hg
  | outOfFuel hs => exact .outOfFuel fun h => hs (hw h)
  | fatal h hs => exact .fatal h fun h => hs (hw h)
  | fatalRight hS h => exact .fatalRight hS h

theorem imp {Q : Related α β} {r r'} (h : Agree S K w s R r r')
    (hR : ∀ {w' s' a b}, Preserves K w s w' s' → R w' a b → Q w' a b) : Agree S K w s Q r r' :=
  h.map id id hR

theorem preserved (hf : Preserves K w s w' s') {r r'} (h : Agree S K w' s' R r r') : Agree S K w s R r r' :=
  h.map hf.isSelf.2 hf.trans fun _ => id

/-- A computation that keeps more keeps less. -/
theorem weaken {r r'} (h : Agree S K w s R r r') (hK : ∀ n, K' n → K n) : Agree S K' w s R r r' :=
  h.map id (·.weaken hK) fun _ => id

/-- Where collection is forbidden everything is kept. -/
theorem quiet {r r'} (h : Agree S K w s R r r') (hq : 0 < s.inhibited) : Agree S K' w s R r r' :=
  h.map id (·.quiet hq) fun _ => id

/-! ### Putting computations together -/

theorem pure {a : α} {b : β} (hm : s.Match S w t) (hr : R w a b) :
    Agree S K w s R ((Pure.pure a : Eval α) s) ((Pure.pure b : Eval β) t) :=
  .ok (.refl K w s) hm hr

/-- The first of two computations may keep more than both together. -/
theorem bindKeeping {x : Eval α} {y : Eval β} {f : α → Eval γ} {g : β → Eval δ}
    (h : Agree S K' w s R (x s) (y t)) (hK : ∀ n, K n → K' n)
    (hfg : ∀ {w' s' t' a b}, Preserves K' w s w' s' → s'.Match S w' t' → R w' a b →
      Agree S K w' s' T (f a s') (g b t')) :
    Agree S K w s T ((x >>= f) s) ((y >>= g) t) := by
  change Agree S K w s T (EStateM.bind x f s) (EStateM.bind y g t)
  unfold EStateM.bind
  generalize x s = r at h ⊢
  generalize y t = r' at h ⊢
  cases h with
  | ok hf hm hr => exact (hfg hf hm hr).preserved (hf.weaken hK)
  | fault hf hm hg => exact .fault (hf.weaken hK) hm hg
  | outOfFuel hs => exact .outOfFuel hs
  | fatal h hs =>
    refine .fatal h fun self => ?_
    obtain ⟨ended, rfl⟩ := hs self
    exact ⟨ended, rfl⟩
  | fatalRight hS h => exact .fatalRight hS h

theorem bind {x : Eval α} {y : Eval β} {f : α → Eval γ} {g : β → Eval δ}
    (h : Agree S K w s R (x s) (y t))
    (hfg : ∀ {w' s' t' a b}, Preserves K w s w' s' → s'.Match S w' t' → R w' a b →
      Agree S K w' s' T (f a s') (g b t')) :
    Agree S K w s T ((x >>= f) s) ((y >>= g) t) :=
  h.bindKeeping (fun _ => id) hfg

/-- Computations may look at the sessions. -/
theorem get {f : Session → Eval γ} {g : Session → Eval δ} (h : Agree S K w s T (f s s) (g t t)) :
    Agree S K w s T ((MonadState.get >>= f) s) ((MonadState.get >>= g) t) :=
  h

theorem mapFault {x : Eval α} {y : Eval β} {c : Fault → Fault} (h : Agree S K w s R (x s) (y t))
    (hc : ∀ f, f.isFatal = true → (c f).isFatal = true)
    (hfg : ∀ {w f g}, f.Match w g → (c f).Match w (c g)) :
    Agree S K w s R (Eval.mapFault c x s) (Eval.mapFault c y t) := by
  unfold Eval.mapFault
  generalize x s = r at h ⊢
  generalize y t = r' at h ⊢
  cases h with
  | ok hf hm hr => exact .ok hf hm hr
  | fault hf hm hg => exact .fault hf hm (hfg hg)
  | outOfFuel hs => exact .outOfFuel hs
  | fatal h hs =>
    refine .fatal (hc _ h) fun self => ?_
    obtain ⟨ended, rfl⟩ := hs self
    exact ⟨ended, rfl⟩
  | fatalRight hS h => exact .fatalRight hS (hc _ h)

theorem blaming {x : Eval α} {y : Eval β} (h : Agree S K w s R (x s) (y t)) (l : Location) :
    Agree S K w s R (Eval.blaming l x s) (Eval.blaming l y t) :=
  h.mapFault (fun f hf => by rw [Fault.isFatal_orAt, hf]) fun hg => hg.orAt l

theorem always {x : Eval α} {y : Eval β} {c d : Session → Session} (h : Agree S K w s R (x s) (y t))
    {w₀ : World} {s₀ : Session} (hw : w₀.isSelf → w.isSelf) (same : w₀.isSelf → c = d)
    (hc : ∀ s, s.terminated = true → (c s).terminated = true)
    (hcd : ∀ {w' s' t'}, Preserves K w s w' s' → s'.Match S w' t' →
      Preserves K' w₀ s₀ w' (c s') ∧ (c s').Match S w' (d t')) :
    Agree S K' w₀ s₀ R (Eval.always c x s) (Eval.always d y t) := by
  unfold Eval.always
  generalize x s = r at h ⊢
  generalize y t = r' at h ⊢
  cases h with
  | ok hf hm hr => exact .ok (hcd hf hm).1 (hcd hf hm).2 hr
  | fault hf hm hg => exact .fault (hcd hf hm).1 (hcd hf hm).2 hg
  | outOfFuel hs => exact .outOfFuel fun self => by rw [hs (hw self), same self]
  | fatal h hs =>
    refine .fatal h fun self => ?_
    obtain ⟨ended, rfl⟩ := hs (hw self)
    exact ⟨hc _ ended, by rw [same self]⟩
  | fatalRight hS h => exact .fatalRight hS h

/-- Two outcomes are related: results that are, or faults that correspond. -/
inductive Outcome (R : Related α β) (w : World) : Except Fault α → Except Fault β → Prop where
  | ok {a b} : R w a b → Outcome R w (.ok a) (.ok b)
  | error {f g} : f.Match w g → Outcome R w (.error f) (.error g)

/-- Whoever learns that the session has ended stops as well, and a session that is compared with itself
stops the same way. -/
def Yields (w : World) (f : Except Fault α → Eval γ) (g : Except Fault β → Eval δ) : Prop :=
  ∀ e s, e.isFatal = true → ∃ e₁ s₁ e₂ s₂, (e₁.isFatal = true ∧ e₂.isFatal = true) ∧
    (s.terminated = true → s₁.terminated = true) ∧ (w.isSelf → e₁ = e₂ ∧ s₁ = s₂) ∧
    f (.error e) s = .error (.fault e₁) s₁ ∧ g (.error e) s = .error (.fault e₂) s₂

theorem Yields.alike {f : Except Fault α → Eval γ} {g : Except Fault β → Eval δ}
    (h : ∀ e s, e.isFatal = true → ∃ e' s', e'.isFatal = true ∧ (s.terminated = true → s'.terminated = true) ∧
      f (.error e) s = .error (.fault e') s' ∧ g (.error e) s = .error (.fault e') s') : Yields w f g := by
  intro e s he
  obtain ⟨e', s', he', kept, both⟩ := h e s he
  exact ⟨e', s', e', s', ⟨he', he'⟩, kept, fun _ => ⟨rfl, rfl⟩, both⟩

/-- A computation may look at the outcome of another one, if it stops when the session has ended. -/
theorem attempt {x : Eval α} {y : Eval β} {f : Except Fault α → Eval γ} {g : Except Fault β → Eval δ}
    (h : Agree S K w s R (x s) (y t)) (yields : Yields w f g)
    (hfg : ∀ {w' s' t' a b}, Preserves K w s w' s' → s'.Match S w' t' → Outcome R w' a b →
      Agree S K w' s' T (f a s') (g b t')) :
    Agree S K w s T ((Eval.attempt x >>= f) s) ((Eval.attempt y >>= g) t) := by
  change Agree S K w s T (EStateM.bind (Eval.attempt x) f s) (EStateM.bind (Eval.attempt y) g t)
  unfold EStateM.bind Eval.attempt
  generalize x s = r at h ⊢
  generalize y t = r' at h ⊢
  cases h with
  | ok hf hm hr => exact (hfg hf hm (.ok hr)).preserved hf
  | fault hf hm hg => exact (hfg hf hm (.error hg)).preserved hf
  | outOfFuel hs => exact .outOfFuel hs
  | @fatal e s' r he hs =>
    obtain ⟨e₁, s₁, e₂, s₂, ⟨he₁, -⟩, kept, same, left, right⟩ := yields e s' he
    simp only [left]
    refine .fatal he₁ fun self => ?_
    obtain ⟨ended, rfl⟩ := hs self
    obtain ⟨rfl, rfl⟩ := same self
    exact ⟨kept ended, right⟩
  | @fatalRight e r t' hS he =>
    obtain ⟨e₁, s₁, e₂, s₂, ⟨-, he₂⟩, -, -, -, right⟩ := yields e t' he
    simp only [right]
    exact .fatalRight hS he₂

/-- **In a session that is compared with itself, what agrees is the same.** -/
theorem eq {R : Related α α} {r r' : EStateM.Result Stop Session α} (h : Agree S K w s R r r')
    (hS : ¬ S.mayEndRight) (self : w.isSelf) (hR : ∀ {w a b}, w.isSelf → R w a b → a = b) : r = r' := by
  cases h with
  | ok hf hm hr =>
    have self := hf.isSelf.2 self
    rw [hR self hr, hm.eq self]
  | fault hf hm hg =>
    have self := hf.isSelf.2 self
    rw [hg.eq self, hm.eq self]
  | outOfFuel hs => rw [hs self]
  | fatal h hs => exact (hs self).2.symm
  | fatalRight h => exact absurd h hS

/-- Two lists of the same computations, which keep everything. -/
theorem mapM {f : α → Eval γ} {g : β → Eval δ} {P : World → Session → α → β → Prop}
    (hP : ∀ {w w' s s' t t' a b}, Preserves everything w s w' s' → s.Match S w t → s'.Match S w' t' →
      P w s a b → P w' s' a b)
    (hR : ∀ {w w' c d}, w ≤ w' → T w c d → T w' c d)
    (hfg : ∀ {w s t a b}, s.Match S w t → P w s a b → Agree S everything w s T (f a s) (g b t))
    {xs : List α} {ys : List β} (h : List.Forall₂ (P w s) xs ys) (hm : s.Match S w t) :
    Agree S everything w s (fun w => List.Forall₂ (T w)) (xs.mapM f s) (ys.mapM g t) := by
  induction xs generalizing w s t ys with
  | nil =>
    cases h
    exact pure hm .nil
  | cons x xs ih =>
    obtain ⟨y, ys, hxy, hs, rfl⟩ := List.forall₂_cons_left_iff.1 h
    rw [List.mapM_cons, List.mapM_cons]
    refine bind (hfg hm hxy) fun hf hm' hr => ?_
    refine bind (ih (hs.imp fun _ _ => hP hf hm hm') hm') fun hf' hm'' hrs => ?_
    exact pure hm'' (.cons (hR hf'.le hr) hrs)

end Agree

/-! ### Computations that do not collect -/

/-- Two computations that do not collect agree wherever the sessions correspond; with `q` set, only
where collection is forbidden. -/
def Sim (S : Setting) (q : Bool) (w : World) {α β : Type} (x : Eval α) (y : Eval β)
    (R : Related α β) : Prop :=
  ∀ ⦃s t : Session⦄, s.Match S w t → (q = true → 0 < s.inhibited) →
    Agree S everything w s R (x s) (y t)

namespace Sim

variable {S : Setting} {q : Bool} {w : World} {α β γ δ : Type}
variable {R : Related α β} {T : Related γ δ}

theorem pure {a : α} {b : β} (hr : R w a b) : Sim S q w (pure a) (pure b) R :=
  fun _ _ hm _ => Agree.pure hm hr

theorem imp {Q : Related α β} {x : Eval α} {y : Eval β} (h : Sim S q w x y R)
    (hR : ∀ {w' a b}, w ≤ w' → R w' a b → Q w' a b) : Sim S q w x y Q :=
  fun _ _ hm hq => (h hm hq).imp fun hf => hR hf.le

theorem bind {x : Eval α} {y : Eval β} {f : α → Eval γ} {g : β → Eval δ} (h : Sim S q w x y R)
    (hfg : ∀ {w' a b}, w ≤ w' → R w' a b → Sim S q w' (f a) (g b) T) :
    Sim S q w (x >>= f) (y >>= g) T :=
  fun _ _ hm hq => (h hm hq).bind fun hf hm' hr => hfg hf.le hr hm' (hf.inhibited ▸ hq)

/-- What comes after a computation that does not collect may do so. -/
theorem andThen {K : Node → Prop} {s t : Session} {x : Eval α} {y : Eval β} {f : α → Eval γ}
    {g : β → Eval δ} (h : Sim S false w x y R) (hm : s.Match S w t)
    (hfg : ∀ {w' s' t' a b}, Preserves everything w s w' s' → s'.Match S w' t' → R w' a b →
      Agree S K w' s' T (f a s') (g b t')) :
    Agree S K w s T ((x >>= f) s) ((y >>= g) t) :=
  (h hm nofun).bindKeeping (fun _ _ => trivial) hfg

/-- A computation that does not collect keeps whatever is to be kept. -/
theorem agree {K : Node → Prop} {s t : Session} {x : Eval α} {y : Eval β} (h : Sim S false w x y R)
    (hm : s.Match S w t) : Agree S K w s R (x s) (y t) :=
  (h hm nofun).weaken fun _ _ => trivial

theorem fail {f g : Fault} (h : f.Match w g) : Sim S q w (Eval.fail f) (Eval.fail g) R :=
  fun _ _ hm _ => .fault (.refl _ _ _) hm h

theorem failWith (c : Cause) (noLoss : c.isLoss = false) :
    Sim S q w (Eval.failWith c) (Eval.failWith c) R :=
  fail (.of w c noLoss)

theorem defect (d : Defect) (noLoss : (Cause.defect d).isLoss = false) :
    Sim S q w (Eval.defect d) (Eval.defect d) R :=
  failWith (.defect d) noLoss

theorem ofExcept {a : Except Fault α} {b : Except Fault β} (h : Agree.Outcome R w a b) :
    Sim S q w (Eval.ofExcept a) (Eval.ofExcept b) R := by
  cases h with
  | ok h => exact pure h
  | error h => exact fail h

/-- What corresponding sessions have in common may be used. -/
theorem given {x : Eval α} {y : Eval β}
    (h : ∀ {s t : Session}, s.Match S w t → Sim S q w x y R) : Sim S q w x y R :=
  fun _ _ hm hq => h hm hm hq

/-- Computations may look at the sessions. -/
theorem get {f : Session → Eval γ} {g : Session → Eval δ}
    (h : ∀ {s t : Session}, s.Match S w t → Sim S q w (f s) (g t) T) :
    Sim S q w (get >>= f) (get >>= g) T :=
  fun _ _ hm hq => h hm hm hq

theorem mapFault {x : Eval α} {y : Eval β} {c : Fault → Fault} (h : Sim S q w x y R)
    (hc : ∀ f, f.isFatal = true → (c f).isFatal = true)
    (hfg : ∀ {w f g}, f.Match w g → (c f).Match w (c g)) :
    Sim S q w (Eval.mapFault c x) (Eval.mapFault c y) R :=
  fun _ _ hm hq => (h hm hq).mapFault hc hfg

theorem blaming {x : Eval α} {y : Eval β} (h : Sim S q w x y R) (l : Location) :
    Sim S q w (Eval.blaming l x) (Eval.blaming l y) R :=
  fun _ _ hm hq => (h hm hq).blaming l

/-! ### Lists -/

/-- Two lists of the same computations on items that are related. -/
theorem mapM {f : α → Eval γ} {g : β → Eval δ} {P : Related α β}
    (hP : ∀ {w w' a b}, w ≤ w' → P w a b → P w' a b)
    (hR : ∀ {w w' a b}, w ≤ w' → T w a b → T w' a b)
    {xs : List α} {ys : List β} (h : List.Forall₂ (P w) xs ys)
    (hfg : ∀ {w' a b}, w ≤ w' → P w' a b → Sim S q w' (f a) (g b) T) :
    Sim S q w (xs.mapM f) (ys.mapM g) fun w => List.Forall₂ (T w) := by
  intro s t hm hq
  refine Agree.mapM (P := fun w' s' a b => w ≤ w' ∧ (q = true → 0 < s'.inhibited) ∧ P w' a b)
    ?_ ?_ ?_ (h.imp fun _ _ h => ⟨le_rfl, hq, h⟩) hm
  · exact fun hf _ _ h => ⟨h.1.trans hf.le, hf.inhibited ▸ h.2.1, hP hf.le h.2.2⟩
  · exact hR
  · exact fun hm h => hfg h.1 h.2.2 hm h.2.1

theorem foldlM {f : γ → α → Eval γ} {g : δ → β → Eval δ} {P : Related α β}
    (hP : ∀ {w w' a b}, w ≤ w' → P w a b → P w' a b)
    {xs : List α} {ys : List β} (h : List.Forall₂ (P w) xs ys)
    (hfg : ∀ {w' c d a b}, w ≤ w' → T w' c d → P w' a b → Sim S q w' (f c a) (g d b) T)
    {c : γ} {d : δ} (hcd : T w c d) : Sim S q w (xs.foldlM f c) (ys.foldlM g d) T := by
  induction xs generalizing w c d ys with
  | nil =>
    cases h
    exact pure hcd
  | cons x xs ih =>
    obtain ⟨y, ys, hxy, hs, rfl⟩ := List.forall₂_cons_left_iff.1 h
    rw [List.foldlM_cons, List.foldlM_cons]
    exact bind (hfg le_rfl hcd hxy) fun hw hr =>
      ih (hs.imp fun _ _ => hP hw) (fun hw' => hfg (hw.trans hw')) hr

end Sim

end TwinLisp
