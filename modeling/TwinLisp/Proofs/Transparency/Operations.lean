import TwinLisp.Engine.Basic
import TwinLisp.Proofs.Correspondence.Host
import TwinLisp.Proofs.Transparency.Evaluation

/-!
# What hosts do on both sides

Between the operations of a host no top-level form is open. Each operation does the same on both sides, and
leaves nothing open.

## Main statements

* `Means.Match.evaluateText` and its like: evaluations from outside agree.
* `Sim.bindHost`, `Sim.pin`, `Sim.unpin`, `Agree.collectGarbage`: so does the rest.
* `Session.match_fresh`: sessions in which nothing has happened correspond.
-/

namespace TwinLisp

variable {e : Terms} {w w' : World} {s s' t t' : Session}

/-- No top-level form is open. -/
structure Session.Closed (s : Session) : Prop where
  nesting : s.nesting = 0
  floor : s.heap.floor = none

namespace Session.Closed

theorem opened (h : s.Closed) (n : Nat) : s.Opened n := .inl ⟨h.nesting, h.floor⟩

theorem preserved {K : Node → Prop} (h : s.Closed) (hf : Preserves K w s w' s') : s'.Closed :=
  ⟨hf.nesting.trans h.nesting, hf.floor.trans h.floor⟩

end Session.Closed

/-! ### Evaluations -/

/-- The forms of a text are the same on both sides, and mention no objects. -/
theorem Sim.forms (source : String) : Sim (.transparent e) false w (Evaluator.forms source)
    (Evaluator.forms source) fun _ fs gs => fs = gs ∧ Form.ArePlain fs := by
  unfold Evaluator.forms
  cases read : readAll source with
  | ok fs => exact .pure ⟨rfl, readAll_plain read⟩
  | error failure => exact .fail ((Fault.Match.of _ _ (by rfl)).located _)

namespace Means.Match

variable {oldest : Nat} {m m' : Means}

theorem apply (h : Means.Match e m m') {f f' : Value} {args args' : List Value}
    (hm : s.Match (.transparent e) w t) (hf : f.Match w f') (ha : Value.MatchAll w args args') :
    Agree (.transparent e) nothing w s Value.Match (m.apply f args s) (m'.apply f' args' t) := by
  refine Sim.checkAlive.andThen hm fun hF hm _ => ?_
  refine (h.call hm (hf.mono hF.le) (Value.Match.all_mono ha hF.le)).always id (fun _ => rfl) (fun _ => id)
    fun hF hm => ⟨hF.trans (.of_le le_rfl (fun _ _ => id) rfl rfl rfl), ?_⟩
  exact { hm with eq := fun hs => by rw [hm.eq hs], callDepth := rfl }

theorem applyNamed (h : Means.Match e m m') (name : String) {args args' : List Value}
    (hm : s.Match (.transparent e) w t) (ha : Value.MatchAll w args args') :
    Agree (.transparent e) nothing w s Value.Match (m.applyNamed name args s) (m'.applyNamed name args' t) := by
  refine Agree.get ?_
  have found := (Setting.transparent e).globals hm.scopes name
  change Option.Rel (Value.Match w) ((s.symbols.find? name).bind s.global?)
    ((t.symbols.find? name).bind t.global?) at found
  generalize (s.symbols.find? name).bind s.global? = x at found ⊢
  generalize (t.symbols.find? name).bind t.global? = y at found ⊢
  cases found with
  | some hv => exact h.apply hm hv ha
  | none => exact (Sim.failWith _ rfl).agree hm

variable (h : ∀ oldest, Means.Match { e with oldest } m m')
include h

theorem evaluate {f : Form} (hm : s.Match (.transparent { e with oldest }) w t) (closed : s.Closed)
    (hf : f.IsPlain) : Agree (.transparent { e with oldest }) nothing w s Value.Match
      (m.evaluate f s) (m'.evaluate f t) := by
  unfold Means.evaluate
  rw [(h oldest).depth]
  exact evaluateWithin h _ oldest hm (closed.opened oldest) (hf.imp fun _ => False.elim)

theorem evaluateText (source : String) (hm : s.Match (.transparent { e with oldest }) w t)
    (closed : s.Closed) : Agree (.transparent { e with oldest }) nothing w s Value.Match
      (m.evaluateText source s) (m'.evaluateText source t) := by
  refine (Sim.forms source).andThen hm fun hF hm hfs => ?_
  obtain ⟨rfl, plain⟩ := hfs
  exact Agree.lastOf (P := fun _ s f => s.Closed ∧ f.IsPlain) (fun hF _ hf => ⟨hf.1.preserved hF, hf.2⟩)
    (fun {_ _ _ f} hm hf => evaluate h (f := f) hm hf.1 hf.2) hm fun f hf => ⟨closed.preserved hF, plain f hf⟩

theorem evaluateFile (path : String) (contents : Except String String)
    (hm : s.Match (.transparent { e with oldest }) w t) (closed : s.Closed) :
    Agree (.transparent { e with oldest }) nothing w s Value.Match
      (m.evaluateFile path contents s) (m'.evaluateFile path contents t) := by
  cases contents with
  | ok source => exact evaluateText h source hm closed
  | error reason => exact (Sim.failWith _ rfl).agree hm

end Means.Match

/-! ### Names, pins and collections -/

namespace Sim

variable {q : Bool}

/-- Native functions are bound to their names alike. -/
theorem defineNative (name : String) (n : Native) :
    Sim (.transparent e) q w (Eval.defineNative name n) (Eval.defineNative name n) Done := by
  refine bind (intern name) fun {w x y} _ hx => ?_
  refine bind (new (.function ⟨.some hx, rfl, .native n⟩)) fun hw hv => ?_
  exact defineGlobal (hw.sym hx) hv

theorem defineBuiltins :
    Sim (.transparent e) q w Eval.defineBuiltins Eval.defineBuiltins Done := by
  unfold Eval.defineBuiltins
  generalize Builtin.all = bs
  induction bs generalizing w with
  | nil => exact pure trivial
  | cons b bs ih =>
    exact bind (defineNative b.name (.builtin b)) fun _ _ => ih

theorem bindHost (name : String) (t : HostType) {x y : t.Carrier} (h : t.Match w x y) :
    Sim (.transparent e) q w (Eval.bind name t x) (Eval.bind name t y) Done :=
  bind (toValue t h) fun _ hv => bind (intern name) fun hw hx => defineGlobal hx (hv.mono hw)

theorem pin {v v' : Value} (h : v.Match w v') :
    Sim (.transparent e) q w (Eval.pin v) (Eval.pin v') Same := by
  intro s t hm _
  change Agree _ everything w s Same
    (.ok s.nextPin { s with pins := s.pins.insert s.nextPin v, nextPin := s.nextPin + 1 })
    (.ok t.nextPin { t with pins := t.pins.insert t.nextPin v', nextPin := t.nextPin + 1 })
  refine .ok (Preserves.of_le le_rfl (fun _ _ => id) rfl rfl rfl) ?_ hm.nextPin
  exact { hm with
    eq := fun hs => by rw [hm.eq hs, h.eq hs]
    nextPin := congrArg (· + 1) hm.nextPin
    pins := fun i => by
      rw [Std.TreeMap.getElem?_insert, Std.TreeMap.getElem?_insert, hm.nextPin]
      split
      · exact .some h
      · exact hm.pins i }

theorem unpin (pin : Nat) :
    Sim (.transparent e) q w (Eval.unpin pin) (Eval.unpin pin) (Optional Value.Match) := by
  intro s t hm _
  change Agree _ everything w s (Optional Value.Match)
    (.ok s.pins[pin]? { s with pins := s.pins.erase pin })
    (.ok t.pins[pin]? { t with pins := t.pins.erase pin })
  refine .ok (Preserves.of_le le_rfl (fun _ _ => id) rfl rfl rfl) ?_ (hm.pins pin)
  exact { hm with
    eq := fun hs => by rw [hm.eq hs]
    pins := fun i => by
      rw [Std.TreeMap.getElem?_erase, Std.TreeMap.getElem?_erase]
      split
      · exact .none
      · exact hm.pins i }

end Sim

/-- A collection at the wish of the host, in a session that is compared with itself. -/
theorem Agree.collectGarbage (hm : s.Match (.transparent e) w t) (self : w.isSelf) (free : s.inhibited = 0) :
    Agree (.transparent e) nothing w s Same (Eval.collectGarbage s) (Eval.collectGarbage t) := by
  obtain rfl := hm.eq self
  change Agree _ nothing w s Same (.ok (s.collectGarbage []).2 (s.collectGarbage []).1)
    (.ok (s.collectGarbage []).2 (s.collectGarbage []).1)
  exact .ok (.collect hm (by omega) nofun) (hm.collect [] (.inr ⟨self, rfl⟩)) rfl

theorem Means.Match.start {oldest : Nat} {m m' : Means}
    (h : ∀ oldest, Means.Match { e with oldest } m m') (prelude : String)
    (hm : s.Match (.transparent { e with oldest }) w t) (closed : s.Closed) :
    Agree (.transparent { e with oldest }) nothing w s Done (m.start prelude s) (m'.start prelude t) := by
  unfold Means.start
  refine Sim.defineBuiltins.andThen hm fun hF hm _ => ?_
  exact (Means.Match.evaluateText h prelude hm (closed.preserved hF)).bind fun _ hm _ => .pure hm trivial

/-! ### Beginnings -/

/-- Nothing has happened: there is one scope, and nothing else. -/
def World.fresh (isSelf : Prop) : World where
  isSelf := isSelf
  sym _ _ := False
  pair _ _ := False
  live _ _ _ := False
  scope i := i = Scopes.root
  handle _ := False
  sym_eq _ := nofun
  pair_eq _ := nofun
  live_eq _ := nofun

/-- The terms of a comparison before anything has happened. -/
def Terms.initial (isSelf mayEnd : Prop) : Terms := ⟨isSelf, mayEnd, 0, .empty none⟩

/-- Heaps without objects correspond. -/
theorem Heap.match_empty {self mayEnd : Prop} {c c' : Option Nat} (hs : self → c = c')
    (hn : ¬ self → c' = none) :
    (Heap.empty c).Match (.transparent (.initial self mayEnd)) (.fresh self) (.empty c') where
  eq isSelf := by rw [hs isSelf]
  objects := nofun
  known := nofun
  handles := nofun
  nextHandle := rfl
  oldest := le_rfl
  since := .of_eq rfl rfl
  whole _ _ _ ho := by cases ho
  registered _ _ _ hv := by simp [Heap.embedded?, Heap.empty] at hv
  soundLeft := Heap.sound_empty c
  soundRight := Heap.sound_empty c'
  foundedLeft := ⟨fun _ => 0, 0, fun _ ⟨_, _, h⟩ => h.elim, fun _ ho => by cases ho⟩
  foundedRight := ⟨fun _ => 0, 0, fun _ ⟨_, _, h⟩ => h.elim, fun _ ho => by cases ho⟩
  unlimited := hn

/-- A session in which nothing has happened and that never collects, on a heap without limits. -/
def Session.ideal (limits : Limits) : Session := { fresh limits with heap := .empty none, inhibited := 1 }

/-- **Sessions in which nothing has happened correspond.** -/
theorem Session.match_fresh {self mayEnd : Prop} {limits : Limits} {t : Session}
    (hs : self → t = fresh limits)
    (hn : ¬ self → ∃ limits', limits.callDepth = limits'.callDepth ∧
      limits.formDepth = limits'.formDepth ∧ limits.macroDepth = limits'.macroDepth ∧ t = ideal limits') :
    (fresh limits).Match (.transparent (.initial self mayEnd)) (.fresh self) t := by
  have names (x y : Symbol) : False ↔ ∃ name, SymbolTable.empty.names[x.index]? = some name ∧
      SymbolTable.empty.names[y.index]? = some name := by simp [SymbolTable.empty]
  have scopes : Scopes.initial.Match (.fresh self) .initial := {
    size := rfl
    root := rfl
    all := by
      rintro i rfl
      exact ⟨⟨∅, none⟩, ⟨∅, none⟩, rfl, rfl, fun i => by simp, rfl, fun _ h => by cases h⟩ }
  have unique : (World.fresh self).Unique :=
    ⟨fun h => h.elim, fun h => h.elim, fun h => h.elim, fun h => h.elim⟩
  by_cases isSelf : self
  · obtain rfl := hs isSelf
    exact {
      isSelf := id
      eq := fun _ => rfl
      unique
      symbols := names
      scopes := ⟨rfl, scopes⟩
      heap := Heap.match_empty (fun _ => rfl) fun h => absurd isSelf h
      callLimit := rfl
      formLimit := rfl
      macroLimit := rfl
      attribution := rfl
      pins := fun i => by simp [fresh]
      nextPin := rfl
      operands := .nil
      generated := rfl
      callDepth := rfl
      nesting := rfl
      output := rfl
      aliveLeft := rfl
      aliveRight := rfl
      inhibited := fun h => absurd isSelf h }
  · obtain ⟨limits', call, form, macros, rfl⟩ := hn isSelf
    exact {
      isSelf := id
      eq := fun h => absurd h isSelf
      unique
      symbols := names
      scopes := ⟨rfl, scopes⟩
      heap := Heap.match_empty (fun h => absurd h isSelf) fun _ => rfl
      callLimit := call
      formLimit := form
      macroLimit := macros
      attribution := rfl
      pins := fun i => by simp [fresh, ideal]
      nextPin := rfl
      operands := .nil
      generated := rfl
      callDepth := rfl
      nesting := rfl
      output := rfl
      aliveLeft := rfl
      aliveRight := rfl
      inhibited := fun _ => rfl }

end TwinLisp
