import TwinLisp.Proofs.Bytecode.Level
import TwinLisp.Proofs.Conduct.Primitives

/-!
# Assembling code

While code is assembled, the tables only grow, so what an instruction refers to stays there. What has been
compiled so far is described by what will be true of it in every context that covers the tables as they are
in the end.

A function being compiled stands in other functions, and what it captures is found in their frames. How
high those are at that point is kept as a list of *depths*, the innermost first.

## Main definitions

* `CaptureTable.Fit`: everything captured so far can be found where it is taken from.
* `Builds`: a computation assembles code, of which something is true in the end.

## Main statements

* `Builds.bind` and its like, and one lemma for each primitive computation.
* `Builds.resolve`: what a name denotes can be found.
-/

namespace TwinLisp

/-! ### Growth -/

/-- One set of tables is part of another. -/
structure CodeTables.Within (t u : CodeTables) : Prop where
  constants {i : Nat} {v : Value} : t.constants[i]? = some v → u.constants[i]? = some v
  sites : t.sites.size ≤ u.sites.size
  prototypes {i : Nat} {q : Prototype} : t.prototypes[i]? = some q → u.prototypes[i]? = some q

/-- What has been assembled is part of what has been assembled later. -/
structure Assembly.Grows (a b : Assembly) : Prop where
  tables : a.tables.Within b.tables
  captures : List.Forall₂ (fun t u : CaptureTable => t.length ≤ u.length) a.captures b.captures

/-- The context has everything that has been assembled. -/
structure CodeContext.Covers (P : Policy) (X : CodeContext) (a : Assembly) : Prop where
  guarded : X.guarded = P.guarded
  tables : a.tables.Within X.tables
  captures {t : CaptureTable} : a.captures.head? = some t → t.length ≤ X.captures

/-- Everything captured can be found in the functions around, which have so many operands. The outermost
function captures nothing. -/
def CaptureTable.Fit : List Nat → List CaptureTable → Prop
  | [], [t] => t = []
  | d :: ds, t :: u :: rest => (∀ e ∈ t, e.2.FitsIn d u.length) ∧ Fit ds (u :: rest)
  | _, _ => False

theorem CodeTables.Within.refl (t : CodeTables) : t.Within t := ⟨id, Nat.le_refl _, id⟩

theorem CodeTables.Within.trans {t u v : CodeTables} (h : t.Within u) (h' : u.Within v) : t.Within v :=
  ⟨fun hi => h'.constants (h.constants hi), Nat.le_trans h.sites h'.sites,
    fun hi => h'.prototypes (h.prototypes hi)⟩

namespace Assembly.Grows

variable {a b c : Assembly}

theorem of_tables {t : CodeTables} (h : a.tables.Within t) : a.Grows { a with tables := t } :=
  ⟨h, List.forall₂_same.2 fun _ _ => Nat.le_refl _⟩

theorem refl (a : Assembly) : a.Grows a := of_tables (.refl _)

theorem captures_trans : {ts us vs : List CaptureTable} →
    List.Forall₂ (fun t u : CaptureTable => t.length ≤ u.length) ts us →
    List.Forall₂ (fun t u : CaptureTable => t.length ≤ u.length) us vs →
    List.Forall₂ (fun t u : CaptureTable => t.length ≤ u.length) ts vs
  | _, _, _, .nil, .nil => .nil
  | _, _, _, .cons h hs, .cons h' hs' => .cons (Nat.le_trans h h') (captures_trans hs hs')

theorem trans (h : a.Grows b) (h' : b.Grows c) : a.Grows c :=
  ⟨h.tables.trans h'.tables, captures_trans h.captures h'.captures⟩

end Assembly.Grows

namespace CodeContext.Covers

variable {P : Policy} {X : CodeContext} {a b : Assembly}

/-- A context that covers what is assembled later covers what is there now. -/
theorem of_grows (hX : X.Covers P b) (h : a.Grows b) : X.Covers P a := by
  refine ⟨hX.guarded, h.tables.trans hX.tables, fun {t} ht => ?_⟩
  obtain ⟨rest, ha⟩ : ∃ rest, a.captures = t :: rest := List.head?_eq_some_iff.1 ht
  have grows := h.captures
  rw [ha] at grows
  obtain ⟨u, us, htu, -, hb⟩ := List.forall₂_cons_left_iff.1 grows
  exact Nat.le_trans htu (hX.captures (by rw [hb]; rfl))

end CodeContext.Covers

/-- The context of the code being assembled, as it is now. -/
def Assembly.context (P : Policy) (a : Assembly) : CodeContext :=
  ⟨P.guarded, a.tables, (a.captures.head?.getD []).length⟩

theorem Assembly.covers_context (P : Policy) (a : Assembly) : (a.context P).Covers P a := by
  refine ⟨rfl, .refl _, fun {t} ht => ?_⟩
  rw [Assembly.context, ht]
  exact Nat.le_refl _

/-- Everything captured can be found, and inner prototypes are well formed. -/
structure Assembly.Fits (P : Policy) (ds : List Nat) (a : Assembly) : Prop where
  captures : CaptureTable.Fit ds a.captures
  prototypes : ∀ q ∈ a.tables.prototypes, q.Each (ArityCode.Typed P.guarded)

/-! ### Computations -/

/-- A computation that assembled something has two parts that did. -/
theorem Assemble.of_bind_eq_ok {α β : Type} {x : Assemble α} {f : α → Assemble β} {a b : Assembly} {r : β}
    {s t : Session} (h : (x >>= f) a s = .ok (r, b) t) :
    ∃ v a' s', x a s = .ok (v, a') s' ∧ f v a' s' = .ok (r, b) t := by
  cases hx : x a s with
  | ok first s' =>
    have rest : f first.1 first.2 s' = .ok (r, b) t := (Eval.bind_eq_of_ok hx).symm.trans h
    exact ⟨first.1, first.2, s', rfl, rest⟩
  | error e s' =>
    cases (Eval.bind_eq_of_error hx).symm.trans h

/-- The computation obeys the policy, and what has been assembled before it grows. In every context that
covers what has been assembled in the end, `T` holds of the result. -/
def BuildsOn {α : Type} (P : Policy) (ds : List Nat) (a : Assembly) (x : Assemble α)
    (T : CodeContext → α → Prop) : Prop :=
  Obeys P (x a) fun r => a.Grows r.2 ∧ r.2.Fits P ds ∧ ∀ X, X.Covers P r.2 → T X r.1

/-- The same, whatever has been assembled before. -/
def Builds {α : Type} (P : Policy) (ds : List Nat) (x : Assemble α) (T : CodeContext → α → Prop) :
    Prop :=
  ∀ a : Assembly, a.Fits P ds → BuildsOn P ds a x T

namespace Builds

variable {P : Policy} {ds : List Nat} {α β : Type} {T : CodeContext → α → Prop}
variable {U : CodeContext → β → Prop}

theorem pure {v : α} (h : ∀ X, X.guarded = P.guarded → T X v) : Builds P ds (pure v) T :=
  fun a ha => Obeys.pure ⟨.refl a, ha, fun X hX => h X hX.guarded⟩

theorem imp {T' : CodeContext → α → Prop} {x : Assemble α} (h : Builds P ds x T)
    (hT : ∀ X v, T X v → T' X v) : Builds P ds x T' :=
  fun a ha => (h a ha).imp fun _ hr => ⟨hr.1, hr.2.1, fun X hX => hT X _ (hr.2.2 X hX)⟩

/-- What is true of the first result in some context may be used to go on. It is still true in the end. -/
theorem bind {x : Assemble α} {f : α → Assemble β} (h : Builds P ds x T)
    (hf : ∀ v Y, T Y v → Builds P ds (f v) fun X w => T X v → U X w) : Builds P ds (x >>= f) U :=
  fun a ha => (h a ha).bind fun r hr =>
    (hf r.1 _ (hr.2.2 _ (r.2.covers_context P)) r.2 hr.2.1).imp fun _ hr' =>
      ⟨hr.1.trans hr'.1, hr'.2.1, fun X hX => hr'.2.2 X hX (hr.2.2 X (hX.of_grows hr'.1))⟩

theorem lift {x : Eval α} {Q : α → Prop} (h : Obeys P x Q) :
    Builds P ds (StateT.lift x) fun _ => Q :=
  fun a ha => h.bind fun _ hv => .pure ⟨.refl a, ha, fun _ _ => hv⟩

theorem get {a : Assembly} {f : Assembly → Assemble α} (h : BuildsOn P ds a (f a) T) :
    BuildsOn P ds a (get >>= f) T := h

theorem known {x : Except Fault α} {v : α} {f : α → Assemble β} (hx : x = .ok v)
    (h : Builds P ds (f v) U) : Builds P ds (StateT.lift (Eval.ofExcept x) >>= f) U := by
  subst hx
  exact h

theorem mapM {γ : Type} {f : γ → Assemble α} {xs : List γ} (h : ∀ x ∈ xs, Builds P ds (f x) T) :
    Builds P ds (xs.mapM f) fun X ys => ∀ y ∈ ys, T X y := by
  induction xs with
  | nil =>
    rw [List.mapM_nil]
    exact pure fun _ _ => nofun
  | cons x xs ih =>
    obtain ⟨hx, hxs⟩ := List.forall_mem_cons.1 h
    rw [List.mapM_cons]
    refine hx.bind fun y _ _ => (ih hxs).bind fun ys _ _ => pure fun X _ hys hy => ?_
    exact List.forall_mem_cons.2 ⟨hy, hys⟩

/-! ### Indices -/

variable (hP : ∀ limit, P.mayFail (.codeTooLarge limit))
include hP

theorem exceed (limit : CodeLimit) : Builds P ds (Assemble.exceed limit : Assemble α) T :=
  (lift (Q := fun _ => False) (.failWith (hP limit))).imp fun _ _ => False.elim

theorem index (limit : CodeLimit) (n : Nat) : Builds P ds (Assemble.index limit n)
    fun _ i => i = n ∧ n ≤ Assemble.maxIndex := by
  unfold Assemble.index
  split
  · next h => exact pure fun _ _ => ⟨rfl, h⟩
  · exact exceed hP limit

theorem forward (n : Nat) : Builds P ds (Assemble.forward n) fun _ d => d = n := by
  unfold Assemble.forward
  split
  · exact pure fun _ _ => rfl
  · exact exceed hP _

theorem backward (offset target : Nat) : Builds P ds (Assemble.backward offset target)
    fun _ d => d = (target : Int) - (offset + 1) := by
  unfold Assemble.backward
  split
  · exact pure fun _ _ => rfl
  · exact exceed hP _

/-- An index is taken for an entry that is added at once. -/
theorem entered {limit : CodeLimit} {n : Nat} {T : CodeContext → Nat → Prop} {f : Assembly → Assembly}
    {a : Assembly} (hf : a.Grows (f a)) (ha : a.Fits P ds) (hfit : (f a).Fits P ds)
    (hT : ∀ X, X.Covers P (f a) → T X n) :
    BuildsOn P ds a (do let i ← Assemble.index limit n; modify f; return i) T := by
  unfold Assemble.index
  split
  · exact Obeys.pure ⟨hf, hfit, hT⟩
  · have failed : Builds P ds (Assemble.exceed limit : Assemble Nat) fun _ _ => False := exceed hP limit
    exact failed.bind (fun _ _ => False.elim) a ha

/-- The constant is found under its index, or one that is identical. -/
theorem addConstant (v : Value) : Builds P ds (Assemble.addConstant v) fun X i =>
    ∃ w, X.tables.constants[i]? = some w ∧ (w = v ∨ v.identical w = true) := by
  intro a ha
  refine get ?_
  dsimp only
  split
  · next i hi =>
    obtain ⟨hl, hv, -⟩ := Array.findIdx?_eq_some_iff_getElem.1 hi
    exact Obeys.pure ⟨.refl a, ha, fun X hX =>
      ⟨_, hX.tables.constants (Array.getElem?_eq_getElem hl), .inr hv⟩⟩
  · refine entered hP (.of_tables ⟨fun {i w} hw => ?_, Nat.le_refl _, id⟩) ha
      ⟨ha.captures, ha.prototypes⟩ fun X hX =>
      ⟨v, hX.tables.constants Array.getElem?_push_size, .inl rfl⟩
    have bound := (Array.getElem?_eq_some_iff.1 hw).1
    rwa [Array.getElem?_push, if_neg (Nat.ne_of_lt bound)]

theorem addSymbol (name : Symbol) : Builds P ds (Assemble.addConstant (.symbol name)) fun X i =>
    X.tables.constants[i]? = some (.symbol name) := by
  refine (addConstant hP _).imp fun X i hi => ?_
  obtain ⟨w, hw, rfl | identical⟩ := hi
  · exact hw
  · cases w with
    | symbol other =>
      have same : name = other := by simpa [Value.identical] using identical
      rwa [same]
    | _ => simp [Value.identical] at identical

theorem addSite (locations : List Location) : Builds P ds (Assemble.addSite locations) fun X i =>
    i < X.tables.sites.size := by
  intro a ha
  have size : a.tables.sites.size < (a.tables.sites.push locations).size := by
    rw [Array.size_push]
    exact Nat.lt_succ_self _
  exact get (entered hP (.of_tables ⟨id, Nat.le_of_lt size, id⟩) ha ⟨ha.captures, ha.prototypes⟩
    fun X hX => Nat.lt_of_lt_of_le size hX.tables.sites)

theorem addPrototype {q : Prototype} (hq : q.Each (ArityCode.Typed P.guarded)) :
    Builds P ds (Assemble.addPrototype q) fun X i => X.tables.prototypes[i]? = some q := by
  intro a ha
  have prototypes : ∀ p ∈ a.tables.prototypes.push q, p.Each (ArityCode.Typed P.guarded) := by
    intro p hp
    rcases Array.mem_push.1 hp with hp | rfl
    · exact ha.prototypes p hp
    · exact hq
  refine get (entered hP (.of_tables ⟨id, Nat.le_refl _, fun {i p} hp => ?_⟩) ha
    ⟨ha.captures, prototypes⟩ fun X hX => hX.tables.prototypes Array.getElem?_push_size)
  have bound := (Array.getElem?_eq_some_iff.1 hp).1
  rwa [Array.getElem?_push, if_neg (Nat.ne_of_lt bound)]

/-! ### Functions within functions -/

omit hP in
/-- Code with tables of its own is described in the context of those. -/
theorem withTables {x : Assemble α} (h : Builds P ds x T) : Builds P ds (Assemble.withTables x)
    fun X r => T ⟨X.guarded, r.2, X.captures⟩ r.1 ∧
      ∀ q ∈ r.2.prototypes, q.Each (ArityCode.Typed P.guarded) := by
  intro a ha
  have empty : (⟨.empty, a.captures⟩ : Assembly).Fits P ds :=
    ⟨ha.captures, fun q hq => absurd hq (by simp [CodeTables.empty])⟩
  refine (h _ empty).bind fun r hr => ?_
  obtain ⟨grows, fits, holds⟩ := hr
  refine .pure ⟨⟨.refl _, grows.captures⟩, ⟨fits.captures, ha.prototypes⟩, fun X hX => ⟨?_, ?_⟩⟩
  · exact holds _ ⟨hX.guarded, .refl _, hX.captures⟩
  · exact fits.prototypes

omit hP in
/-- A function captures what can be found in the one around it. -/
theorem withCaptures {d : Nat} {x : Assemble α} (h : Builds P (d :: ds) x T) :
    Builds P ds (Assemble.withCaptures x) fun X r =>
      (∀ e ∈ r.2, e.2.FitsIn d X.captures) ∧ ∃ t, T ⟨X.guarded, t, r.2.length⟩ r.1 := by
  intro a ha
  have captures := ha.captures
  obtain ⟨u, rest, hu⟩ : ∃ u rest, a.captures = u :: rest := by
    cases hc : a.captures with
    | nil =>
      rw [hc] at captures
      cases ds <;> exact captures.elim
    | cons u rest => exact ⟨u, rest, rfl⟩
  have inner : (⟨a.tables, [] :: a.captures⟩ : Assembly).Fits P (d :: ds) := by
    refine ⟨?_, ha.prototypes⟩
    rw [hu] at captures ⊢
    exact ⟨nofun, captures⟩
  refine (h _ inner).bind fun r hr => ?_
  obtain ⟨grows, fits, holds⟩ := hr
  obtain ⟨t, ts, -, outer, ht⟩ := List.forall₂_cons_left_iff.1 grows.captures
  rw [hu] at outer
  obtain ⟨u', us, -, -, rfl⟩ := List.forall₂_cons_left_iff.1 outer
  have fit := fits.captures
  rw [ht] at fit
  have head : r.2.captures.head?.getD [] = t := by
    rw [ht]
    rfl
  have tail : r.2.captures.drop 1 = u' :: us := by
    rw [ht]
    rfl
  refine .pure ⟨⟨grows.tables, ?_⟩, ⟨?_, fits.prototypes⟩, fun X hX => ⟨fun e he => ?_, r.2.tables, ?_⟩⟩
  · change List.Forall₂ _ a.captures (r.2.captures.drop 1)
    rwa [hu, tail]
  · change CaptureTable.Fit ds (r.2.captures.drop 1)
    rw [tail]
    exact fit.2
  · rw [head] at he
    exact (fit.1 e he).mono (Nat.le_refl _) (hX.captures (congrArg List.head? tail))
  · rw [head]
    refine holds _ ⟨hX.guarded, .refl _, fun {v} hv => ?_⟩
    rw [ht] at hv
    cases hv
    exact Nat.le_refl _

end Builds

/-! ### Names -/

/-- In a frame with `d` operands there are all slots that the names of the function denote. -/
def FunctionNames.Below (f : FunctionNames) (d : Nat) : Prop := 0 < d ∧ ∀ e ∈ f.locals, e.2 < d

/-- What a name denotes is there, in a frame with so many operands and captured values. -/
def Referent.FitsIn (height captures : Nat) : Referent → Prop
  | .slot i => i < height
  | .captured i => i < captures
  | .global => True

namespace CaptureTable

theorem fit_cons {d : Nat} {ds : List Nat} {tables : List CaptureTable} (h : Fit (d :: ds) tables) :
    ∃ t u rest, tables = t :: u :: rest ∧ (∀ e ∈ t, e.2.FitsIn d u.length) ∧ Fit ds (u :: rest) := by
  match tables, h with
  | t :: u :: rest, h => exact ⟨t, u, rest, rfl, h⟩

/-- One more value is captured from the function around, which may have captured it first. -/
theorem fit_capture {d d' : Nat} {ds : List Nat} {t u : CaptureTable}
    {rest outer tables : List CaptureTable} {name : String} {c : Capture} {r : Referent}
    (ht : ∀ e ∈ t, e.2.FitsIn d u.length) (ho : Fit ds outer)
    (hg : List.Forall₂ (fun t u : CaptureTable => t.length ≤ u.length) (u :: rest) outer)
    (hc : c.FitsIn d (outer.head?.getD []).length)
    (h : (if t.length ≤ Assemble.maxIndex then
      Except.ok (.captured t.length, (t ++ [(name, c)]) :: outer)
      else Except.error CodeLimit.tooManyLocals) = Except.ok (r, tables)) :
    Fit (d :: ds) tables ∧
      List.Forall₂ (fun t u : CaptureTable => t.length ≤ u.length) (t :: u :: rest) tables ∧
      r.FitsIn d' (tables.head?.getD []).length := by
  split at h
  · cases h
    refine ⟨?_, .cons (by simp) hg, by simp [Referent.FitsIn]⟩
    obtain ⟨u', us, hu, -, rfl⟩ := List.forall₂_cons_left_iff.1 hg
    refine ⟨fun e he => ?_, ho⟩
    rcases List.mem_append.1 he with he | he
    · exact (ht e he).mono (Nat.le_refl _) hu
    · obtain rfl := List.mem_singleton.1 he
      exact hc
  · cases h

end CaptureTable

/-- **What a name denotes can be found**, and so can everything that is captured for it. -/
theorem Assemble.resolveIn_fit {name : String} {fs : List FunctionNames} {d : Nat} {ds : List Nat}
    {tables tables' : List CaptureTable} {r : Referent}
    (hf : List.Forall₂ FunctionNames.Below fs (d :: ds)) (ht : CaptureTable.Fit ds tables)
    (h : Assemble.resolveIn name fs tables = .ok (r, tables')) :
    CaptureTable.Fit ds tables' ∧
      List.Forall₂ (fun t u : CaptureTable => t.length ≤ u.length) tables tables' ∧
      r.FitsIn d (tables'.head?.getD []).length := by
  induction fs generalizing d ds tables tables' r with
  | nil => cases hf
  | cons f outer ih =>
    cases hf with
    | cons below houter =>
    have same : List.Forall₂ (fun t u : CaptureTable => t.length ≤ u.length) tables tables :=
      List.forall₂_same.2 fun _ _ => Nat.le_refl _
    unfold Assemble.resolveIn at h
    split at h
    · next i hi =>
      cases h
      obtain ⟨before, after, locals, -⟩ := List.lookup_eq_some_iff.1 hi
      exact ⟨ht, same, below.2 (name, i) (by simp [locals])⟩
    · split at h
      · cases h
        exact ⟨ht, same, below.1⟩
      · dsimp only at h
        split at h
        · next i hi =>
          cases h
          obtain ⟨bound, -⟩ := List.findIdx?_eq_some_iff_getElem.1 hi
          exact ⟨ht, same, bound⟩
        · cases hr : Assemble.resolveIn name outer (tables.drop 1) with
          | error e =>
            rw [hr] at h
            cases h
          | ok found =>
            obtain ⟨r', outer'⟩ := found
            rw [hr] at h
            cases houter with
            | nil =>
              cases hr
              cases h
              exact ⟨ht, same, trivial⟩
            | cons below' hrest =>
              obtain ⟨t, u, rest, rfl, captured, fit⟩ := CaptureTable.fit_cons ht
              obtain ⟨fit', grows, found⟩ := ih (.cons below' hrest) fit hr
              cases r' with
              | global =>
                cases h
                exact ⟨ht, same, trivial⟩
              -- A value that is found further out is captured, from a slot or from a captured value.
              | slot i => exact CaptureTable.fit_capture (c := .fromSlot i) captured fit' grows found h
              | captured i =>
                exact CaptureTable.fit_capture (c := .fromCapture i) captured fit' grows found h

/-- What a name denotes can be found. -/
theorem Builds.resolve {P : Policy} {fs : List FunctionNames} {d : Nat} {ds : List Nat}
    (hP : ∀ limit, P.mayFail (.codeTooLarge limit)) (hf : List.Forall₂ FunctionNames.Below fs (d :: ds))
    (name : String) : Builds P ds (Assemble.resolve fs name) fun X r => r.FitsIn d X.captures := by
  intro a ha
  refine get ?_
  split
  · exact exceed hP _ a ha
  · next r tables h =>
    obtain ⟨fit, grows, found⟩ := Assemble.resolveIn_fit hf ha.captures h
    refine Obeys.pure ⟨⟨.refl _, grows⟩, ⟨fit, ha.prototypes⟩, fun X hX => ?_⟩
    have bound : (tables.head?.getD []).length ≤ X.captures := by
      cases tables with
      | nil => exact Nat.zero_le _
      | cons t rest => exact hX.captures rfl
    cases r with
    | slot i => exact found
    | captured i => exact Nat.lt_of_lt_of_le found bound
    | global => trivial

end TwinLisp
