import TwinLisp.Proofs.Bytecode.Level
import TwinLisp.Proofs.Correspondence.Agreement
import TwinLisp.Proofs.Transparency.Assembly

/-!
# Machines on both sides

Both machines run the same code at the same place. Their operands correspond, and so do the failures
that they hold. What a machine tells a collection to keep is enough for that to go on.

## Main definitions

* `ArityCode.Match`, `Frame.Match` and `Machine.Match`.

## Main statements

* `Prototype.Match.select`: both sides pick the same code for a call.
* `Machine.Match.preserved`: the roots of a machine suffice for it.
-/

namespace TwinLisp

variable {e : Terms} {w w' : World}

/-! ### Code -/

/-- The code for one parameter list corresponds. -/
def ArityCode.Match (w : World) (c d : ArityCode Prototype) : Prop := Prototype.ArityMatch w [c] [d]

namespace ArityCode.Match

variable {c d : ArityCode Prototype}

theorem code_eq (h : c.Match w d) : c.code = d.code := by cases h; rfl

theorem params_eq (h : c.Match w d) : c.params = d.params := by cases h; rfl

theorem hasRest_eq (h : c.Match w d) : c.hasRest = d.hasRest := by cases h; rfl

theorem locations_eq (h : c.Match w d) : c.locations = d.locations := by cases h; rfl

theorem sites_eq (h : c.Match w d) : c.sites = d.sites := by cases h; rfl

theorem constants (h : c.Match w d) : Value.MatchAll w c.constants.toList d.constants.toList := by
  cases h with
  | cons hc _ _ => exact hc

theorem prototypes (h : c.Match w d) : List.Forall₂ (Prototype.Match w) c.prototypes d.prototypes := by
  cases h with
  | cons _ hp _ => exact hp.forall₂

end ArityCode.Match

namespace Prototype

theorem ArityMatch.forall₂ {as bs : List (ArityCode Prototype)} (h : ArityMatch w as bs) :
    List.Forall₂ (ArityCode.Match w) as bs := by
  induction as generalizing bs with
  | nil =>
    cases h
    exact .nil
  | cons a as ih =>
    cases h with
    | cons hc hp hs => exact .cons (.cons hc hp .nil) (ih hs)

/-- The constants of a function's code are among the function's constants. -/
theorem mem_arityValues {c : ArityCode Prototype} {as : List (ArityCode Prototype)} (h : c ∈ as) :
    arityValues [c] ⊆ arityValues as := by
  induction as with
  | nil => cases h
  | cons a as ih =>
    rcases List.mem_cons.1 h with rfl | h
    · simp [arityValues]
    · exact fun v hv => List.mem_append_right _ (ih h hv)

namespace Match

variable {p q : Prototype}

theorem arities (h : p.Match w q) : ArityMatch w p.arities q.arities := by
  cases h with
  | mk _ h => exact h

theorem name_eq (h : p.Match w q) : p.name = q.name := by cases h; rfl

theorem captures_eq (h : p.Match w q) : p.captures = q.captures := by cases h; rfl

theorem name (h : p.Match w q) {x : Symbol} (hx : p.name = some x) : w.sym x x := by
  cases h with
  | mk hn _ => exact hn x hx

theorem overloads_eq (h : p.Match w q) : p.overloads = q.overloads :=
  map_eq_of_forall₂ h.arities.forall₂ fun _ _ _ _ h => by rw [h.params_eq, h.hasRest_eq]

/-- Both sides pick the same code for a call. -/
theorem select (h : p.Match w q) (argc : Nat) :
    Option.Rel (ArityCode.Match w) (p.selectArity? argc) (q.selectArity? argc) := by
  rw [selectArity?, selectArity?, h.overloads_eq]
  cases Overload.select? q.overloads argc with
  | none => exact .none
  | some i => exact getElem?_of_forall₂ h.arities.forall₂ i

end Match

end Prototype

/-! ### Frames -/

/-- Two frames correspond: they stand at the same place of the same code. -/
structure Frame.Match (w : World) (f g : Frame) : Prop where
  prototype : f.prototype.Match w g.prototype
  code : f.code.Match w g.code
  mem : f.code ∈ f.prototype.arities
  ip : f.ip = g.ip
  bottom : f.bottom = g.bottom
  captured : Value.MatchAll w f.captured.toList g.captured.toList
  site : f.site = g.site
  isCounted : f.isCounted = g.isCounted

namespace Frame.Match

variable {f g : Frame}

theorem mono (h : f.Match w g) (hw : w ≤ w') : f.Match w' g :=
  { h with
    prototype := h.prototype.mono hw
    code := Prototype.ArityMatch.mono h.code hw
    captured := Value.Match.all_mono h.captured hw }

/-- In a session that is compared with itself, frames correspond to themselves. -/
theorem eq (h : f.Match w g) (hs : w.isSelf) : f = g := by
  have prototype := h.prototype.eq hs
  have code : f.code = g.code := List.head_eq_of_cons_eq (Prototype.ArityMatch.eq hs h.code)
  have captured := Array.toList_inj.1 (Value.Match.all_eq h.captured hs)
  have ip := h.ip
  have bottom := h.bottom
  have site := h.site
  have counted := h.isCounted
  cases f
  cases g
  simp_all

/-- The roots of a frame suffice for it. -/
theorem preserved {K : Node → Prop} {s s' : Session} (h : f.Match w g) (hF : Preserves K w s w' s')
    (hK : ∀ n ∈ f.roots, K n) : f.Match w' g := by
  have captured (n : Node) (hn : n ∈ Node.ofValues f.captured.toList) : K n :=
    hK n (List.mem_append_right _ hn)
  have constant {v v' : Value} (hm : v ∈ f.prototype.values) (hv : v.Match w v') : v.Match w' v' :=
    hF.value hv fun n hn =>
      hK n (List.mem_append_left _ (List.mem_flatMap.2 ⟨v, hm, hn⟩))
  have names (x : Symbol) : w.sym x x → w'.sym x x := hF.sym
  refine { h with
    prototype := h.prototype.imp names fun v hm _ => constant hm
    code := Prototype.ArityMatch.imp names (fun v hm _ => constant ?_) h.code
    captured := hF.values h.captured captured }
  have inside := Prototype.mem_arityValues h.mem hm
  cases hp : f.prototype with
  | mk _ _ _ _ =>
    rw [hp] at inside
    exact inside

end Frame.Match

/-! ### Machines -/

/-- Two machines correspond. -/
structure Machine.Match (w : World) (m m' : Machine) : Prop where
  top : m.top.Match w m'.top
  callers : List.Forall₂ (Frame.Match w) m.callers m'.callers
  handlers : m.handlers = m'.handlers
  held : List.Forall₂ (Fault.Match w) m.held m'.held
  operands : Value.MatchAll w m.operands.toList m'.operands.toList
  floor : m.floor = m'.floor

namespace Machine

variable {m m' : Machine}

namespace Match

/-- The roots of a machine suffice for it. -/
theorem preserved {s s' : Session} (h : m.Match w m') {K : Node → Prop} (hF : Preserves K w s w' s')
    (hK : ∀ n ∈ m.roots, K n) : m.Match w' m' where
  top := h.top.preserved hF fun n hn =>
    hK n (List.mem_append_left _ (List.mem_append_left _ (List.mem_append_right _ hn)))
  callers := forall₂_imp_of_mem h.callers fun f hf _ _ hfg => by
    refine hfg.preserved hF fun n hn => hK n (List.mem_append_left _ (List.mem_append_right _ ?_))
    exact List.mem_flatMap.2 ⟨f, hf, hn⟩
  handlers := h.handlers
  held := forall₂_imp_of_mem h.held fun f hf g _ hfg => by
    refine hfg.preserved hF fun v hv n hn => ?_
    refine hK n (List.mem_append_right _ (List.mem_flatMap.2 ⟨v, ?_, hn⟩))
    exact List.mem_filterMap.2 ⟨f, hf, hv⟩
  operands := hF.values h.operands fun n hn =>
    hK n (List.mem_append_left _ (List.mem_append_left _ (List.mem_append_left _ hn)))
  floor := h.floor

theorem mono (h : m.Match w m') (hw : w ≤ w') : m.Match w' m' :=
  ⟨h.top.mono hw, h.callers.imp fun _ _ h => h.mono hw, h.handlers, h.held.imp fun _ _ h => h.mono hw,
    Value.Match.all_mono h.operands hw, h.floor⟩

/-- In a session that is compared with itself, machines correspond to themselves. -/
theorem eq (h : m.Match w m') (hs : w.isSelf) : m = m' := by
  have top := h.top.eq hs
  have callers := eq_of_forall₂_self h.callers fun _ _ _ h => h.eq hs
  have handlers := h.handlers
  have held := eq_of_forall₂_self h.held fun _ _ _ h => h.eq hs
  have operands := Array.toList_inj.1 (Value.Match.all_eq h.operands hs)
  have floor := h.floor
  cases m
  cases m'
  simp_all

theorem start {os os' slots slots' : Array Value} {f g : Frame}
    (ho : Value.MatchAll w os.toList os'.toList) (h : f.Match w g)
    (hs : Value.MatchAll w slots.toList slots'.toList) :
    (Machine.start os f slots).Match w (.start os' g slots') where
  top := h
  callers := .nil
  handlers := rfl
  held := .nil
  operands := by
    show Value.MatchAll w (os ++ slots).toList (os' ++ slots').toList
    rw [Array.toList_append, Array.toList_append]
    exact List.rel_append ho hs
  floor := by
    show os.size = os'.size
    simpa using ho.length_eq

/-! ### Operands -/

theorem withOperands (h : m.Match w m') {os os' : Array Value}
    (ho : Value.MatchAll w os.toList os'.toList) : (m.withOperands os).Match w (m'.withOperands os') :=
  { h with operands := ho }

theorem size_eq (h : m.Match w m') : m.operands.size = m'.operands.size := by
  simpa using h.operands.length_eq

theorem push (h : m.Match w m') {v v' : Value} (hv : v.Match w v') : (m.push v).Match w (m'.push v') := by
  refine h.withOperands ?_
  rw [Array.toList_push, Array.toList_push]
  exact List.rel_append h.operands (.cons hv .nil)

theorem shrink (h : m.Match w m') (n : Nat) : (m.shrink n).Match w (m'.shrink n) := by
  refine h.withOperands ?_
  rw [Array.toList_shrink, Array.toList_shrink]
  exact List.forall₂_take n h.operands

theorem drop (h : m.Match w m') (n : Nat) : (m.drop n).Match w (m'.drop n) := by
  unfold Machine.drop
  rw [h.size_eq]
  exact h.shrink _

theorem calling (h : m.Match w m') {f g : Frame} (hf : f.Match w g) {slots slots' : Array Value}
    (hs : Value.MatchAll w slots.toList slots'.toList) :
    (m.calling f slots).Match w (m'.calling g slots') :=
  { h with
    top := hf
    callers := .cons h.top h.callers
    operands := by
      show Value.MatchAll w (m.operands ++ slots).toList (m'.operands ++ slots').toList
      rw [Array.toList_append, Array.toList_append]
      exact List.rel_append h.operands hs }

theorem goto (h : m.Match w m') (target : Nat) : (m.goto target).Match w (m'.goto target) :=
  { h with top := { h.top with ip := rfl } }

theorem jump (h : m.Match w m') (offset : Int) : (m.jump offset).Match w (m'.jump offset) := by
  unfold Machine.jump
  rw [h.top.ip]
  exact h.goto _

theorem operand? (h : m.Match w m') (i : Nat) :
    Option.Rel (Value.Match w) m.operands[i]? m'.operands[i]? := by
  simpa using getElem?_of_forall₂ h.operands i

theorem slot? (h : m.Match w m') (i : Nat) : Option.Rel (Value.Match w) (m.slot? i) (m'.slot? i) := by
  unfold Machine.slot?
  rw [h.top.bottom]
  exact h.operand? _

/-- Both sides take values that correspond off, or there is none to take. -/
@[elab_as_elim]
theorem popCases {motive : Option (Value × Machine) → Option (Value × Machine) → Prop}
    (h : m.Match w m') (none : motive .none .none)
    (some : ∀ v v' n n', v.Match w v' → Machine.Match w n n' → motive (.some (v, n)) (.some (v', n'))) :
    motive m.pop? m'.pop? := by
  have last := h.operand? (m.operands.size - 1)
  have rest : (m.withOperands m.operands.pop).Match w (m'.withOperands m'.operands.pop) := by
    refine h.withOperands ?_
    rw [Array.toList_pop, Array.toList_pop, List.dropLast_eq_take, List.dropLast_eq_take,
      h.operands.length_eq]
    exact List.forall₂_take _ h.operands
  unfold Machine.pop?
  rw [Array.back?_eq_getElem?, Array.back?_eq_getElem?, ← h.size_eq]
  generalize m.operands[m.operands.size - 1]? = x at last ⊢
  generalize m'.operands[m.operands.size - 1]? = y at last ⊢
  cases last with
  | some hv => exact some _ _ _ _ hv rest
  | none => exact none

/-- Both sides have as many values that correspond on top, or there are too few. -/
theorem topmost? (h : m.Match w m') (n : Nat) :
    Option.Rel (Value.MatchAll w) (m.topmost? n) (m'.topmost? n) := by
  unfold Machine.topmost?
  rw [h.size_eq]
  dsimp only
  split
  · refine .some ?_
    rw [Array.toList_extract, Array.toList_extract, List.extract_eq_take_drop,
      List.extract_eq_take_drop]
    exact List.forall₂_take _ (List.forall₂_drop _ h.operands)
  · exact .none

/-- Both sides take as many values that correspond off, or there are too few. -/
@[elab_as_elim]
theorem popManyCases {motive : Option (List Value × Machine) → Option (List Value × Machine) → Prop}
    (h : m.Match w m') (n : Nat) (none : motive .none .none)
    (some : ∀ vs vs' k k', Value.MatchAll w vs vs' → Machine.Match w k k' →
      motive (.some (vs, k)) (.some (vs', k'))) :
    motive (m.popMany? n) (m'.popMany? n) := by
  have top := h.topmost? n
  unfold Machine.popMany?
  generalize m.topmost? n = x at top ⊢
  generalize m'.topmost? n = y at top ⊢
  cases top with
  | some hvs => exact some _ _ _ _ hvs (h.drop n)
  | none => exact none

/-! ### Tables -/

theorem location_eq (h : m.Match w m') : m.top.location = m'.top.location := by
  rw [Frame.location, Frame.location, h.top.code.locations_eq, h.top.ip]

theorem site?_eq (h : m.Match w m') (i : Nat) : m.site? i = m'.site? i := by
  rw [site?, site?, h.top.code.sites_eq]

theorem constant? (h : m.Match w m') (i : Nat) :
    Option.Rel (Value.Match w) (m.constant? i) (m'.constant? i) := by
  simpa [Machine.constant?] using getElem?_of_forall₂ h.top.code.constants i

theorem captured? (h : m.Match w m') (i : Nat) :
    Option.Rel (Value.Match w) m.top.captured[i]? m'.top.captured[i]? := by
  simpa using getElem?_of_forall₂ h.top.captured i

end Match

end Machine

end TwinLisp
