import TwinLisp.Engine.Prelude
import TwinLisp.Proofs.Syntax.Reader
import TwinLisp.Proofs.Transparency.Run
import TwinLisp.Proofs.Transparency.TreeWalk

/-!
# Evaluation of programs on both sides

The evaluation of a top-level form goes from expansion through checking to the run of the backend, and parts
of it are top-level forms again. What it mentions are objects that macros put into it while the outermost
evaluation is open, and those stay registered until it ends.

Of an evaluator only two things matter here: how it calls functions, and how it runs forms that are expanded
and checked. These are its *means*.

## Main definitions

* `Means`, `Means.evaluateWithin` and `Evaluator.means`.
* `Means.Match`: means that agree.
* `Session.Opened`: whether a top-level form is open, and since when.

## Main statements

* `Agree.terms`: which handles are new to a comparison does not matter once it is over.
* `Means.Match.evaluateWithin`: top-level forms are evaluated alike.
-/

namespace TwinLisp

variable {e e' : Terms} {w w' : World} {s s' t t' : Session}

/-! ### Other terms -/

theorem Object.Match.terms {o o' : Object} (h : o.Match (.transparent e) w o') :
    o.Match (.transparent e') w o' := by
  cases h with
  | str s => exact .str s
  | list l h => exact .list l h
  | vector l h => exact .vector l h
  | map h => exact .map h
  | set h => exact .set h
  | function h => exact .function ⟨h.name, h.isMacro, h.body⟩
  | atom h => exact .atom h
  | host t => exact .host t

theorem Heap.Match.terms {h k : Heap} (hm : h.Match (.transparent e) w k)
    (ho : e'.oldest ≤ h.nextHandle) (since : h.Continues e'.since) : h.Match (.transparent e') w k :=
  { hm with
    objects := fun hl => by
      obtain ⟨o, o', ho, ho', hk, hoo, hpair⟩ := hm.objects hl
      exact ⟨o, o', ho, ho', hk, hoo.terms, hpair⟩
    oldest := ho
    since }

theorem Session.Match.terms (hm : s.Match (.transparent e) w t) (hs : e'.isSelf → e.isSelf)
    (ho : e'.oldest ≤ s.heap.nextHandle) (since : s.heap.Continues e'.since) :
    s.Match (.transparent e') w t :=
  { hm with
    isSelf := fun h => hm.isSelf (hs h)
    scopes := hm.scopes
    heap := hm.heap.terms ho since }

/-- Which handles are new to a comparison, and which are old, does not matter once it is over. -/
theorem Agree.terms {K : Node → Prop} {α β : Type} {R : Related α β} {r r'}
    (h : Agree (.transparent e) K w s R r r') (hs : e'.isSelf → e.isSelf) (hend : e.mayEnd → e'.mayEnd)
    (ho : e'.oldest ≤ e.oldest) (since : e.since.Continues e'.since) :
    Agree (.transparent e') K w s R r r' := by
  have terms {w' : World} {s' t' : Session} (hm : s'.Match (.transparent e) w' t') :
      s'.Match (.transparent e') w' t' :=
    hm.terms hs (ho.trans hm.heap.oldest) (hm.heap.since.trans since)
  cases h with
  | ok hf hm hr => exact .ok hf (terms hm) hr
  | fault hf hm hg => exact .fault hf (terms hm) hg
  | outOfFuel h => exact .outOfFuel h
  | fatal h hs => exact .fatal h hs
  | fatalRight he h => exact .fatalRight (hend he) h

/-! ### Top-level forms -/

theorem Heap.Match.withFloor {S : Setting} {h k : Heap} (hm : h.Match S w k) {n m : Option Nat}
    (hn : n = m) : Heap.Match S w { h with floor := n } { k with floor := m } :=
  { hm with
    eq := fun hs => by rw [hm.eq hs, hn]
    objects := hm.objects
    known := hm.known
    handles := hm.handles
    whole := hm.whole
    registered := hm.registered
    since := (Heap.Continues.withFloor h n).trans hm.since
    soundLeft := ⟨hm.soundLeft.nodup, hm.soundLeft.empty_of_mem⟩
    soundRight := ⟨hm.soundRight.nodup, hm.soundRight.empty_of_mem⟩
    foundedLeft := hm.foundedLeft
    foundedRight := hm.foundedRight }

theorem Session.Match.openTopLevel {S : Setting} (hm : s.Match S w t) :
    s.openTopLevel.Match S w t.openTopLevel :=
  { hm with
    eq := fun hs => by rw [hm.eq hs]
    heap := by
      unfold Session.openTopLevel
      dsimp only
      rw [← hm.nesting]
      split
      · exact hm.heap.withFloor (congrArg some hm.heap.nextHandle)
      · exact hm.heap
    nesting := congrArg (· + 1) hm.nesting }

theorem Session.Match.closeTopLevel {S : Setting} (hm : s.Match S w t) :
    s.closeTopLevel.Match S w t.closeTopLevel :=
  { hm with
    eq := fun hs => by rw [hm.eq hs]
    heap := by
      unfold Session.closeTopLevel
      dsimp only
      rw [← hm.nesting]
      split
      · exact hm.heap.withFloor rfl
      · exact hm.heap
    callDepth := rfl
    nesting := congrArg (· - 1) hm.nesting }

/-- Either no top-level form is open, or handles from `n` on count as in use. -/
def Session.Opened (n : Nat) (s : Session) : Prop :=
  (s.nesting = 0 ∧ s.heap.floor = none) ∨ (s.nesting ≠ 0 ∧ s.heap.floor = some n)

theorem Session.Opened.preserved {n : Nat} {K : Node → Prop} (h : s.Opened n) (hf : Preserves K w s w' s') :
    s'.Opened n := by
  unfold Session.Opened
  rw [hf.nesting, hf.floor]
  exact h

/-- The handle from which on handles count as in use, when a top-level form has been opened. -/
def Session.opening (n : Nat) (s : Session) : Nat := if s.nesting = 0 then s.heap.nextHandle else n

theorem Session.opening_le {n : Nat} (h : n ≤ s.heap.nextHandle) :
    s.opening n ≤ s.openTopLevel.heap.nextHandle := by
  have same : s.openTopLevel.heap.nextHandle = s.heap.nextHandle := by
    unfold Session.openTopLevel
    dsimp only
    split <;> rfl
  unfold Session.opening
  rw [same]
  split
  · exact le_rfl
  · exact h

theorem Session.le_opening {n : Nat} (h : n ≤ s.heap.nextHandle) : n ≤ s.opening n := by
  unfold Session.opening
  split
  · exact h
  · exact le_rfl

theorem Session.Opened.open {n : Nat} (h : s.Opened n) :
    s.openTopLevel.nesting ≠ 0 ∧ s.openTopLevel.heap.floor = some (s.opening n) := by
  refine ⟨Nat.succ_ne_zero _, ?_⟩
  unfold Session.openTopLevel Session.opening
  obtain ⟨outermost, -⟩ | ⟨inner, floor⟩ := h
  · simp [outermost, Heap.openEmbedding]
  · simp [inner, floor]

/-- What a form mentions that is covered is new since the opening. -/
theorem Session.Opened.usable {f : Form} (h : s.Opened e.oldest) (hf : f.Mentions (Covered nothing w s)) :
    f.Mentions ((Setting.transparent { e with oldest := s.opening e.oldest }).Usable w) := by
  refine hf.imp fun n hn => ?_
  obtain ⟨hn, ⟨k, floor, hle⟩ | ⟨_, _, _, kept, -⟩⟩ := hn
  · obtain ⟨-, none⟩ | ⟨inner, some⟩ := h
    · rw [none] at floor
      cases floor
    · rw [some] at floor
      cases floor
      refine ⟨hn, ?_⟩
      change s.opening e.oldest ≤ n
      rwa [Session.opening, if_neg inner]
  · exact kept.elim

/-- What goes on to correspond within a top-level form does so when it is closed. -/
theorem Preserves.closed {n : Nat} (h : s.Opened n) (hf : Preserves nothing w s.openTopLevel w' s') :
    Preserves nothing w s w' s'.closeTopLevel := by
  have slots : s.openTopLevel.heap.slots = s.heap.slots := by
    unfold Session.openTopLevel
    dsimp only
    split <;> rfl
  have same (a : Address) : s.openTopLevel.heap.get? a = s.heap.get? a := by
    rw [Heap.get?, Heap.get?, slots]
  have slots' : s'.closeTopLevel.heap.slots = s'.heap.slots := by
    unfold Session.closeTopLevel
    dsimp only
    split <;> rfl
  have same' (a : Address) : s'.closeTopLevel.heap.get? a = s'.heap.get? a := by
    rw [Heap.get?, Heap.get?, slots']
  have nesting : s'.nesting - 1 = s.nesting := by
    rw [hf.nesting]
    rfl
  refine ⟨hf.isSelf, hf.sym, hf.pair, hf.objects, hf.scopes, fun hk hn => hf.handles ?_ hn,
    fun hk hl ha ho => ?_, ?_, hf.inhibited, nesting⟩
  · obtain hk | hq | ⟨k, floor, hle⟩ := hk
    · exact .inl hk
    · exact .inr (.inl hq)
    · obtain ⟨-, none⟩ | ⟨inner, some⟩ := h
      · rw [none] at floor
        cases floor
      · refine .inr (.inr ⟨k, ?_, hle⟩)
        rw [(Session.Opened.open (.inr ⟨inner, some⟩)).2, Session.opening, if_neg inner, ← some, floor]
  · rw [same']
    exact hf.fixed hk hl ha ((same _).trans ho)
  · unfold Session.closeTopLevel
    dsimp only
    rw [nesting]
    obtain ⟨outermost, none⟩ | ⟨inner, some⟩ := h
    · simp [outermost, none, Heap.closeEmbedding]
    · have floor := hf.floor
      rw [(Session.Opened.open (.inr ⟨inner, some⟩)).2, Session.opening, if_neg inner] at floor
      simp [inner, some, floor]

/-! ### Means -/

/-- What an evaluator does its work with: calls of functions, and runs of forms that are expanded and
checked. -/
structure Means where
  /-- Call a function. -/
  call : Caller
  /-- Run a form. -/
  run : Form → Eval Value
  /-- How deeply top-level forms may be nested. -/
  depth : Nat

/-- What an evaluator does its work with. -/
def Evaluator.means (e : Evaluator) : Means := ⟨e.call, e.run, e.fuel⟩

namespace Means

/-- Evaluate a form in which at most `depth` top-level `do` forms are nested. -/
def evaluateWithin (m : Means) : Nat → Form → Eval Value
  | 0, _ => throw .outOfFuel
  | depth + 1, f => do
    Eval.checkAlive
    Eval.maybeCollect fun _ => []
    modify Session.openTopLevel
    Eval.blaming f.location (Eval.always Session.closeTopLevel (do
      let head ← Eval.expandHead m.call f
      if head.isCallTo "do" then Evaluator.lastOf (evaluateWithin m depth) (head.items.drop 1)
      else
        let expanded ← Eval.expand m.call head
        Eval.ofExcept (check (← get).limits.formDepth expanded)
        m.run expanded))

/-- Means agree: calls do, and so do runs of forms that mention nothing but what is open. -/
structure Match (e : Terms) (m m' : Means) : Prop where
  call : Caller.Agree (.transparent e) m.call m'.call
  run : ∀ {w : World} {s t : Session} {f : Form}, s.Match (.transparent e) w t →
    f.Mentions (Covered nothing w s) → Agree (.transparent e) nothing w s Value.Match (m.run f s) (m'.run f t)
  depth : m.depth = m'.depth

/-! Everything that an evaluator does is done with its means. -/

/-- Evaluate a top-level form. -/
def evaluate (m : Means) (f : Form) : Eval Value := m.evaluateWithin m.depth f

/-- Evaluate all forms of a text. -/
def evaluateText (m : Means) (source : String) : Eval Value := do
  Evaluator.lastOf m.evaluate (← Evaluator.forms source)

/-- Evaluate the text of a file, or report why there is none. -/
def evaluateFile (m : Means) (path : String) (contents : Except String String) : Eval Value :=
  match contents with
  | .ok source => m.evaluateText source
  | .error reason => Eval.failWith (.unreadableFile path reason)

/-- Call a function value from outside of any evaluation. -/
def apply (m : Means) (callee : Value) (args : List Value) : Eval Value := do
  Eval.checkAlive
  Eval.always (fun s => { s with callDepth := 0 }) (m.call callee args)

/-- Call the function that is bound to a name at the root. -/
def applyNamed (m : Means) (name : String) (args : List Value) : Eval Value := do
  let s ← get
  match (s.symbols.find? name).bind s.global? with
  | some callee => m.apply callee args
  | none => Eval.failWith (.unresolved name)

/-- Set up a session in which nothing has happened, with the macros of a text. -/
def start (m : Means) (prelude : String) : Eval Unit := do
  Eval.defineBuiltins
  let _ ← m.evaluateText prelude

end Means

namespace Evaluator

variable (e : Evaluator)

theorem evaluateWithin_eq (depth : Nat) : e.evaluateWithin depth = e.means.evaluateWithin depth := by
  induction depth with
  | zero => rfl
  | succ depth ih =>
    funext f
    unfold evaluateWithin Means.evaluateWithin
    rw [ih]
    rfl

theorem evaluate_eq : e.evaluate = e.means.evaluate := e.evaluateWithin_eq e.fuel

theorem evaluateText_eq (source : String) : e.evaluateText source = e.means.evaluateText source := by
  rw [evaluateText, Means.evaluateText, evaluate_eq]

theorem evaluateFile_eq (path : String) (contents : Except String String) :
    e.evaluateFile path contents = e.means.evaluateFile path contents := by
  cases contents with
  | ok source => exact e.evaluateText_eq source
  | error reason => rfl

theorem start_eq (prelude : String) : e.start prelude = e.means.start prelude := by
  rw [start, Means.start, evaluateText_eq]

/-- Evaluators with native functions that agree have means that agree. -/
theorem means_match {e : Terms} {natives natives' : NativeRunner}
    (hn : NativeRunner.Match (.transparent e) natives natives') (backend : Backend) (fuel : Nat) :
    Means.Match e (Evaluator.means ⟨backend, natives, fuel⟩) (Evaluator.means ⟨backend, natives', fuel⟩) := by
  cases backend with
  | treeWalk => exact ⟨TreeWalk.call_match hn fuel, fun hm hf => TreeWalk.run_match hn fuel hm hf, rfl⟩
  | machine =>
    exact ⟨Machine.caller_match hn fuel, fun hm hf =>
      Machine.program_match hn fuel hm (hf.imp fun _ hn => hn.1), rfl⟩

end Evaluator

/-! ### Evaluation -/

/-- Whatever is used while a top-level form is open is covered. -/
theorem Setting.Usable.covered {n : Nat} (h : (Setting.transparent e).Usable w n)
    (floor : s.heap.floor = some e.oldest) : Covered nothing w s n :=
  ⟨h.handle, .inl ⟨_, floor, h.isNew⟩⟩

/-- Forms are evaluated in order alike. -/
theorem Agree.lastOf {S : Setting} {evaluate evaluate' : Form → Eval Value} {P : World → Session → Form → Prop}
    (hP : ∀ {w w' s s' t' f}, Preserves nothing w s w' s' → s'.Match S w' t' → P w s f → P w' s' f)
    (h : ∀ {w s t f}, s.Match S w t → P w s f →
      Agree S nothing w s Value.Match (evaluate f s) (evaluate' f t))
    {fs : List Form} (hm : s.Match S w t) (hf : ∀ f ∈ fs, P w s f) :
    Agree S nothing w s Value.Match (Evaluator.lastOf evaluate fs s) (Evaluator.lastOf evaluate' fs t) := by
  have folded {v v' : Value} (hv : fs = [] → v.Match w v') : Agree S nothing w s Value.Match
      (fs.foldlM (fun _ f => evaluate f) v s) (fs.foldlM (fun _ f => evaluate' f) v' t) := by
    induction fs generalizing w s t v v' with
    | nil => exact .pure hm (hv rfl)
    | cons f fs ih =>
      obtain ⟨hf, hs⟩ := List.forall_mem_cons.1 hf
      rw [List.foldlM_cons, List.foldlM_cons]
      exact (h hm hf).bind fun hF hm' hv => ih hm' (fun f hm => hP hF hm' (hs f hm)) fun _ => hv
  exact folded fun _ => .nil

namespace Means.Match

variable {m m' : Means} (h : ∀ oldest, Means.Match { e with oldest } m m')
include h

/-- **Top-level forms are evaluated alike.** -/
theorem evaluateWithin (depth oldest : Nat) {f : Form} (hm : s.Match (.transparent { e with oldest }) w t)
    (opened : s.Opened oldest) (hf : f.Mentions (Covered nothing w s)) :
    Agree (.transparent { e with oldest }) nothing w s Value.Match (m.evaluateWithin depth f s)
      (m'.evaluateWithin depth f t) := by
  induction depth generalizing w s t f oldest with
  | zero => exact .outOfFuel hm.eq
  | succ depth ih =>
    unfold Means.evaluateWithin
    refine Sim.checkAlive.andThen hm fun hF₁ hm₁ _ => ?_
    have hF₁ : Preserves nothing _ _ _ _ := hF₁.weaken nofun
    refine (Agree.maybeCollect (K := nothing) hm₁ nofun fun _ => rfl).bind fun {w s t _ _} hF₂ hm _ => ?_
    have hF := hF₁.trans hF₂
    have opened := opened.preserved hF
    have hf := (hf.preserved hF₁ hm₁).preserved hF₂ hm
    refine Agree.blaming (x := fun s => Eval.always _ _ s.openTopLevel)
      (y := fun s => Eval.always _ _ s.openTopLevel) ?_ f.location
    refine Agree.always (s := s.openTopLevel) ?_ id (fun _ => rfl) (fun _ => id) fun hF hm =>
      ⟨hF.closed opened, hm.closeTopLevel⟩
    -- While the form is open, the new handles are those from the opening on.
    refine Agree.terms (e := { e with oldest := s.opening oldest }) ?_ id id (Session.le_opening hm.heap.oldest)
      (.refl _)
    have usable := Session.Opened.usable (e := { e with oldest }) opened hf
    have opened := opened.open
    have hm : s.openTopLevel.Match (.transparent { e with oldest := s.opening oldest }) w t.openTopLevel :=
      hm.openTopLevel.terms id (Session.opening_le hm.heap.oldest) hm.openTopLevel.heap.since
    dsimp only at usable
    generalize s.opening oldest = opening at usable opened hm ⊢
    generalize s.openTopLevel = s at opened hm ⊢
    generalize t.openTopLevel = t at hm ⊢
    refine (Sim.expandHead (Caller.Agree.quiet (h _).call) usable).andThen hm
      fun {w₁ s₁ t₁ head _} hF₁ hm₁ hh => ?_
    obtain ⟨rfl, hh⟩ := hh
    have floor₁ : s₁.heap.floor = some opening := hF₁.floor.trans opened.2
    have opened₁ : s₁.Opened opening := .inr ⟨by rw [hF₁.nesting]; exact opened.1, floor₁⟩
    split
    · have parts := hh.items.sublist (List.drop_sublist 1 _)
      refine Agree.lastOf (P := fun w s f => s.Opened opening ∧ f.Mentions (Covered nothing w s))
        (fun hF hm hf => ⟨hf.1.preserved hF, hf.2.preserved hF hm⟩)
        (fun {_ _ _ g} hm hf => ih opening (f := g) hm hf.1 hf.2) hm₁
        fun g hg => ⟨opened₁, (parts g hg).imp fun _ hn => hn.covered floor₁⟩
    · refine (Sim.expand (Caller.Agree.quiet (h _).call) hh).andThen hm₁
        fun {w₂ s₂ t₂ expanded _} hF₂ hm₂ hg => ?_
      obtain ⟨rfl, hg⟩ := hg
      have floor₂ : s₂.heap.floor = some opening := hF₂.floor.trans floor₁
      refine Agree.get ?_
      rw [hm₂.formLimit]
      exact Agree.parts (parts_check _ _) hm₂ fun _ _ =>
        (h opening).run hm₂ (hg.imp fun _ hn => hn.covered floor₂)

end Means.Match

end TwinLisp
