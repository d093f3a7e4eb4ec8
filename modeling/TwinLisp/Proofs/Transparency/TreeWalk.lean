import TwinLisp.Proofs.Correspondence.Template
import TwinLisp.Proofs.Transparency.Walker
import TwinLisp.TreeWalk.Eval

/-!
# The tree walker does not notice collections

Every rule of the tree walker keeps what it goes on to use while it evaluates a part. So do all of them
together, by induction on the fuel.

## Main statements

* `Walker.Match.evalSpecial`: special forms.
* `Walker.Match.step`: all forms.
* `walker_match`, `TreeWalk.run_match`: the walker as a whole.
-/

namespace TwinLisp

variable {e : Terms} {w : World} {s t : Session} {p p' : WalkPlace}

namespace Sim

/-! ### Closures -/

theorem eq_of_forall₂_and {α : Type} {Q : α → Prop} {xs ys : List α}
    (h : List.Forall₂ (fun x y => x = y ∧ Q x) xs ys) : xs = ys ∧ ∀ x ∈ xs, Q x := by
  induction h with
  | nil => exact ⟨rfl, by simp⟩
  | cons h _ ih => exact ⟨by rw [h.1, ih.1], List.forall_mem_cons.2 ⟨h.2, ih.2⟩⟩

theorem internAll (names : List String) :
    Sim (.transparent e) false w (names.mapM Eval.intern) (names.mapM Eval.intern) Same := by
  refine (mapM (P := Same) (T := Same) (fun _ => id) (fun _ => id) (List.forall₂_same.2 fun _ _ => rfl)
    fun {_ a b} _ h => ?_).imp fun _ h => ?_
  · cases h
    exact (internSame a).imp fun _ h => h.1
  · exact eq_of_forall₂ (List.forall₂_same.2 fun _ _ => rfl) h fun _ _ _ _ h h' => h.symm.trans h'

theorem internOption (name : Option String) :
    Sim (.transparent e) false w (name.mapM Eval.intern) (name.mapM Eval.intern)
      fun w x y => x = y ∧ ∀ a, x = some a → w.sym a a := by
  cases name with
  | none => exact pure ⟨rfl, nofun⟩
  | some name =>
    rw [Option.mapM_some, map_eq_pure_bind]
    refine bind (internSame name) fun _ h => ?_
    obtain ⟨rfl, h⟩ := h
    exact pure ⟨rfl, fun a ha => by cases ha; exact h⟩

theorem closureOverloads {os : List OverloadShape} (h : ∀ o ∈ os, Form.MentionsAll w.handle o.body) :
    Sim (.transparent e) false w (Walker.closureOverloads os) (Walker.closureOverloads os)
      fun w x y => x = y ∧ ∀ o ∈ x, Form.MentionsAll w.handle o.body := by
  refine (mapM (P := fun w (a b : OverloadShape) => a = b ∧ Form.MentionsAll w.handle a.body)
    (T := fun w (a b : ClosureOverload) => a = b ∧ Form.MentionsAll w.handle a.body)
    (fun hw h => ⟨h.1, h.2.mono hw⟩) (fun hw h => ⟨h.1, h.2.mono hw⟩)
    (List.forall₂_same.2 fun o ho => ⟨rfl, h o ho⟩) fun {_ a b} _ hab => ?_).imp
    fun _ h => eq_of_forall₂_and h
  obtain ⟨rfl, hb⟩ := hab
  refine bind (internAll a.params) fun hw hx => ?_
  cases hx
  refine bind (internOption a.rest) fun hw' hx => ?_
  cases hx.1
  exact pure ⟨rfl, (hb.mono hw).mono hw'⟩

theorem newClosure (hp : p.Match w p') {name : Option Symbol}
    (hn : ∀ a, name = some a → w.sym a a) (isMacro : Bool) {os : List OverloadShape}
    (h : ∀ o ∈ os, Form.MentionsAll w.handle o.body) :
    Sim (.transparent e) false w (Walker.newClosure p name isMacro os)
      (Walker.newClosure p' name isMacro os) Value.Match := by
  refine bind (closureOverloads h) fun {w' os os'} hw hos => ?_
  obtain ⟨rfl, hos⟩ := hos
  rw [← hp.cursor, ← hp.scope]
  refine new (.function ⟨?_, rfl, .interpreted ⟨rfl, hw.scope hp.inUse, hos⟩⟩)
  cases name with
  | none => exact .none
  | some a => exact .some (hw.sym (hn a rfl))

end Sim

namespace Walker.Match

/-- What is covered may be used. -/
theorem usable {K : Node → Prop} {fs : List Form} (h : Form.MentionsAll (Covered K w s) fs) :
    Form.MentionsAll w.handle fs :=
  h.imp fun _ hn => hn.1

theorem evalFunction {f : Form} (hm : s.Match (.transparent e) w t) (hp : p.Match w p')
    (hf : f.Mentions (Covered p.Keeps w s)) :
    Agree (.transparent e) p.Keeps w s Value.Match (Walker.evalFunction p f s)
      (Walker.evalFunction p' f t) := by
  refine Agree.parts (Shape.parts_function hf) hm fun shape h => Sim.agree ?_ hm
  refine (Sim.internOption shape.name).bind fun hw hx => ?_
  obtain ⟨rfl, hx⟩ := hx
  exact Sim.newClosure (hp.mono hw) hx false fun o ho => (usable (h o ho)).mono hw

theorem evalMacroDefinition {f : Form} (hm : s.Match (.transparent e) w t) (hp : p.Match w p')
    (hf : f.Mentions (Covered p.Keeps w s)) :
    Agree (.transparent e) p.Keeps w s Value.Match (Walker.evalMacroDefinition p f s)
      (Walker.evalMacroDefinition p' f t) := by
  refine Agree.parts (Shape.parts_macroDefinition hf) hm fun d h => Sim.agree ?_ hm
  obtain ⟨name, os⟩ := d
  refine (Sim.internSame name).bind fun hw hx => ?_
  obtain ⟨rfl, hx⟩ := hx
  refine (Sim.newClosure (hp.mono hw) (fun a ha => by cases ha; exact hx) true
    fun o ho => (usable (h o ho)).mono hw).bind fun hw' hv => ?_
  exact (Sim.defineGlobal (hw'.sym hx) hv).bind fun hw'' _ => .pure (.symbol (hw''.sym (hw'.sym hx)))

variable {k k' : Walker} (hk : k.Match e k')
include hk

/-! ### Bindings -/

theorem bindInOrder {bs : List Binding} (hm : s.Match (.transparent e) w t) (hp : p.Match w p')
    (hb : ∀ b ∈ bs, b.2.Mentions (Covered p.Keeps w s)) :
    Agree (.transparent e) p.Keeps w s Same (k.bindInOrder p bs s) (k'.bindInOrder p' bs t) := by
  induction bs generalizing w s t with
  | nil => exact .pure hm rfl
  | cons b bs ih =>
    obtain ⟨name, f⟩ := b
    obtain ⟨hf, hs⟩ := List.forall_mem_cons.1 hb
    refine (hk.value hm hp hf).bind fun hF₁ hm₁ hv => ?_
    refine (Sim.internSame name).andThen hm₁ fun {w₂ s₂ t₂ x _} hF₂ hm₂ hx => ?_
    cases hx.1
    rw [← hp.scope]
    refine (Sim.define p.scope x (hv.mono hF₂.le)).andThen hm₂ fun hF₃ hm₃ _ => ?_
    have hF := hF₁.trans ((hF₂.trans hF₃).weaken fun _ _ => trivial)
    refine (ih hm₃ (hp.preserved hF hm₃) fun b hb => (hs b hb).preserved hF hm₃).bind fun _ hm₄ hy => ?_
    cases hy
    exact .pure hm₄ rfl

theorem evalLet {f : Form} (hm : s.Match (.transparent e) w t) (hp : p.Match w p')
    (hf : f.Mentions (Covered p.Keeps w s)) :
    Agree (.transparent e) p.Keeps w s Outcome.Match (k.evalLet p f s) (k'.evalLet p' f t) := by
  refine Agree.parts (Shape.parts_bindings "let" hf) hm fun bs hb => ?_
  rw [← hp.scope]
  refine (Sim.openScope hp.inUse).andThen hm fun {w₁ s₁ t₁ i _} hF₁ hm₁ hi => ?_
  obtain ⟨rfl, hi⟩ := hi
  have hF₁ : Preserves p.Keeps w s w₁ s₁ := hF₁.weaken fun _ _ => trivial
  have inside (n : Node) (hn : p.Keeps n) : (p.inScope i).Keeps n := hn.inScope i
  have hp := (hp.preserved hF₁ hm₁).inScope hi
  refine (hk.bindInOrder hm₁ hp fun b h => ((hb b h).preserved hF₁ hm₁).imp fun _ hn =>
    hn.weaken inside).bindKeeping inside fun hF₂ hm₂ _ => ?_
  have forms := (Shape.mentionsAll_bindingBody hf).preserved hF₁ hm₁
  exact (hk.body hm₂ (hp.preserved hF₂ hm₂) ((forms.imp fun _ hn => hn.weaken inside).preserved hF₂ hm₂)).weaken
    inside

theorem runLoop {names : List Symbol} {fs : List Form} (fuel : Nat) {i : ScopeId}
    (hm : s.Match (.transparent e) w t) (hp : p.Match w p') (hi : w.scope i)
    (hf : Form.MentionsAll (Covered p.Keeps w s) fs) :
    Agree (.transparent e) p.Keeps w s Outcome.Match (k.runLoop p names fs fuel i s)
      (k'.runLoop p' names fs fuel i t) := by
  induction fuel generalizing w s t i with
  | zero => exact .outOfFuel hm.eq
  | succ fuel ih =>
    have inside (i : ScopeId) (n : Node) (hn : p.Keeps n) : (p.inScope i).Keeps n := hn.inScope i
    refine (hk.body hm (hp.inScope hi) (hf.imp fun _ hn => hn.weaken (inside i))).bindKeeping (inside i)
      fun hF₁ hm₁ ho => ?_
    have hF₁ := hF₁.weaken (inside i)
    have hp := hp.preserved hF₁ hm₁
    cases ho with
    | value hv => exact .pure hm₁ (.value hv)
    | recur hvs =>
      dsimp only
      rw [← hp.scope]
      refine (Sim.openScope hp.inUse).andThen hm₁ fun {w₂ s₂ t₂ j _} hF₂ hm₂ hj => ?_
      obtain ⟨rfl, hj⟩ := hj
      refine (bindAll j (Value.Match.all_mono hvs hF₂.le)).andThen hm₂ fun hF₃ hm₃ _ => ?_
      have hp' := (hp.mono (hF₂.le.trans hF₃.le)).inScope (hF₃.le.scope hj)
      refine (Agree.maybeCollect (K := (p.inScope j).Keeps) hm₃ (fun _ => id) hp'.held).bindKeeping
        (inside j) fun hF₄ hm₄ _ => ?_
      have hj := hF₄.scopes (.inl (List.mem_cons_self ..)) (hF₃.le.scope hj)
      have hF := (((hF₂.trans hF₃).weaken fun _ _ => trivial).trans (hF₄.weaken (inside j)))
      exact ih hm₄ (hp.preserved hF hm₄) hj ((hf.preserved hF₁ hm₁).preserved hF hm₄)

theorem evalLoop {f : Form} (hm : s.Match (.transparent e) w t) (hp : p.Match w p')
    (hf : f.Mentions (Covered p.Keeps w s)) :
    Agree (.transparent e) p.Keeps w s Outcome.Match (k.evalLoop p f s) (k'.evalLoop p' f t) := by
  refine Agree.parts (Shape.parts_bindings "loop" hf) hm fun bs hb => ?_
  rw [← hp.scope]
  refine (Sim.openScope hp.inUse).andThen hm fun {w₁ s₁ t₁ i _} hF₁ hm₁ hi => ?_
  obtain ⟨rfl, hi⟩ := hi
  have hF₁ : Preserves p.Keeps w s w₁ s₁ := hF₁.weaken fun _ _ => trivial
  have inside (n : Node) (hn : p.Keeps n) : (p.inScope i).Keeps n := hn.inScope i
  have hp := hp.preserved hF₁ hm₁
  refine (hk.bindInOrder hm₁ (hp.inScope hi) fun b h => ((hb b h).preserved hF₁ hm₁).imp fun _ hn =>
    hn.weaken inside).bindKeeping inside fun hF₂ hm₂ hx => ?_
  cases hx
  have hi := hF₂.scopes (.inl (List.mem_cons_self ..)) hi
  have hF₂ := hF₂.weaken inside
  rw [← hk.fuel]
  exact hk.runLoop _ hm₂ (hp.preserved hF₂ hm₂) hi
    (((Shape.mentionsAll_bindingBody hf).preserved hF₁ hm₁).preserved hF₂ hm₂)

/-! ### Definitions -/

theorem evalDefinition {f : Form} (hm : s.Match (.transparent e) w t) (hp : p.Match w p')
    (hf : f.Mentions (Covered p.Keeps w s)) :
    Agree (.transparent e) p.Keeps w s Value.Match (k.evalDefinition p f s)
      (k'.evalDefinition p' f t) := by
  have named (name : String) {w : World} {s t : Session} {v v' : Value}
      (hm : s.Match (.transparent e) w t) (hv : v.Match w v') :
      Agree (.transparent e) p.Keeps w s Value.Match
        ((do
          let symbol ← Eval.intern name
          Eval.defineGlobal symbol v
          return .symbol symbol : Eval Value) s)
        ((do
          let symbol ← Eval.intern name
          Eval.defineGlobal symbol v'
          return .symbol symbol : Eval Value) t) := by
    refine Sim.agree ((Sim.internSame name).bind fun hw hx => ?_) hm
    obtain ⟨rfl, hx⟩ := hx
    exact (Sim.defineGlobal hx (hv.mono hw)).bind fun hw' _ => .pure (.symbol (hw'.sym hx))
  refine Agree.parts (Shape.parts_definition hf) hm fun d h => ?_
  obtain ⟨name, value⟩ := d
  cases value with
  | none => exact named name hm .nil
  | some f => exact (hk.value hm hp (h f rfl)).bind fun _ hm₁ hv => named name hm₁ hv

/-! ### Failures -/

theorem handled {handler : Option (String × List Form)} {fs : List Form}
    (hm : s.Match (.transparent e) w t) (hp : p.Match w p')
    (hf : Form.MentionsAll (Covered p.Keeps w s) fs)
    (hh : ∀ h, handler = some h → Form.MentionsAll (Covered p.Keeps w s) h.2) :
    Agree (.transparent e) p.Keeps w s Outcome.Match (k.handled p handler fs s)
      (k'.handled p' handler fs t) := by
  refine Agree.get ?_
  rw [← hm.callDepth]
  refine (hk.body hm hp hf).attempt (.alike ?_) fun {w₁ s₁ t₁ a b} hF₁ hm₁ ho => ?_
  · intro f s hf
    cases handler with
    | none => exact ⟨f, s, hf, id, rfl, rfl⟩
    | some h => exact ⟨f, s, hf, id, by simp only [hf]; rfl, by simp only [hf]; rfl⟩
  · cases ho with
    | ok ho => exact .pure hm₁ ho
    | error hfg =>
      have failed := (Sim.fail (S := .transparent e) (R := Outcome.Match) hfg).agree (K := p.Keeps) hm₁
      cases handler with
      | none => exact failed
      | some h =>
        obtain ⟨name, forms⟩ := h
        have hp := hp.preserved hF₁ hm₁
        have hh := (hh _ rfl).preserved hF₁ hm₁
        dsimp only
        rw [← hfg.isFatal_eq, ← hp.scope]
        split
        · exact failed
        · refine (Sim.caught hfg).andThen hm₁ fun hF₂ hm₂ hv => ?_
          refine (Sim.setCallDepth s.callDepth).andThen hm₂ fun hF₃ hm₃ _ => ?_
          have hw := hF₂.le.trans hF₃.le
          refine (Sim.openScope (hw.scope hp.inUse)).andThen hm₃ fun {w₄ s₄ t₄ i _} hF₄ hm₄ hi => ?_
          obtain ⟨rfl, hi⟩ := hi
          refine (Sim.internSame name).andThen hm₄ fun {w₅ s₅ t₅ x _} hF₅ hm₅ hx => ?_
          cases hx.1
          have hv := (hv.mono hF₃.le).mono (hF₄.le.trans hF₅.le)
          refine (Sim.define i x hv).andThen hm₅ fun hF₆ hm₆ _ => ?_
          have hF : Preserves p.Keeps w₁ s₁ _ _ :=
            (((hF₂.trans hF₃).trans (hF₄.trans hF₅)).trans hF₆).weaken fun _ _ => trivial
          have inside (n : Node) (hn : p.Keeps n) : (p.inScope i).Keeps n := hn.inScope i
          have hi := hF₆.le.scope (hF₅.le.scope hi)
          exact (hk.body hm₆ ((hp.preserved hF hm₆).inScope hi)
            ((hh.preserved hF hm₆).imp fun _ hn => hn.weaken inside)).weaken inside

omit hk in
theorem outcome_eq {a b : Except Fault Outcome} (ho : Agree.Outcome Outcome.Match w a b)
    (hs : w.isSelf) : a = b := by
  cases ho with
  | ok ho => rw [ho.eq hs]
  | error hfg => rw [hfg.eq hs]

omit hk in
/-- What a cleanup keeps lets the outcome go on to correspond. -/
theorem outcome_preserved {w' : World} {s' : Session} {a b : Except Fault Outcome}
    (ho : Agree.Outcome Outcome.Match w a b)
    (hF : Preserves (p.holding (Walker.heldValues a)).Keeps w s w' s') :
    Agree.Outcome Outcome.Match w' a b := by
  cases ho with
  | ok ho =>
    refine .ok ?_
    cases ho with
    | value hv => exact .value (hF.value hv fun n hn => WalkPlace.keeps_holding
        (by simpa [Walker.heldValues, Outcome.values, Node.ofValues] using hn))
    | recur hvs => exact .recur (hF.values hvs fun n hn => WalkPlace.keeps_holding hn)
  | error hf => exact .error (hf.preserved hF fun v hv n hn => WalkPlace.keeps_holding
      (by simpa [Walker.heldValues, hv, Node.ofValues] using hn))

theorem cleanedUp {cleanup : List Form} {x y : Eval Outcome} (hp : p.Match w p')
    (hf : Form.MentionsAll (Covered p.Keeps w s) cleanup)
    (h : Agree (.transparent e) p.Keeps w s Outcome.Match (x s) (y t)) :
    Agree (.transparent e) p.Keeps w s Outcome.Match (k.cleanedUp p cleanup x s)
      (k'.cleanedUp p' cleanup y t) := by
  have stops {f : Fault} (hf : f.isFatal = true) (y : Eval Outcome) : (if Walker.isFatal (.error f) then
      Eval.ofExcept (.error f) else y : Eval Outcome) = Eval.fail f := by
    have fatal : Walker.isFatal (.error f) = true := hf
    rw [if_pos fatal]
    rfl
  refine h.attempt (.alike fun f s hf => ⟨f, s, hf, id, ?_, ?_⟩) fun {w₁ s₁ t₁ a b} hF₁ hm₁ ho => ?_
  · rw [stops hf]
    rfl
  · rw [stops hf]
    rfl
  have fatal : Walker.isFatal a = Walker.isFatal b := by
    cases ho with
    | ok _ => rfl
    | error hfg => exact hfg.isFatal_eq
  rw [← fatal]
  split
  · exact (Sim.ofExcept ho).agree hm₁
  · have inside (n : Node) (hn : p.Keeps n) : (p.holding (Walker.heldValues a)).Keeps n := hn.holding _
    have hp := (hp.preserved hF₁ hm₁).holding fun hs => congrArg Walker.heldValues (outcome_eq ho hs)
    refine (hk.body hm₁ hp ((hf.preserved hF₁ hm₁).imp fun _ hn => hn.weaken inside)).bindKeeping inside
      fun hF₂ hm₂ _ => ?_
    exact (Sim.ofExcept (outcome_preserved ho hF₂)).agree hm₂

theorem evalAttempt {f : Form} (hm : s.Match (.transparent e) w t) (hp : p.Match w p')
    (hf : f.Mentions (Covered p.Keeps w s)) :
    Agree (.transparent e) p.Keeps w s Outcome.Match (k.evalAttempt p f s)
      (k'.evalAttempt p' f t) := by
  refine Agree.parts (Shape.parts_attempt hf) hm fun shape h => ?_
  obtain ⟨body, handlers, cleanup⟩ := h
  have handled := hk.handled hm hp body fun h hh => handlers h (List.mem_of_mem_head? hh)
  cases hc : shape.cleanup with
  | some forms => exact hk.cleanedUp hp (cleanup forms hc) handled
  | none => exact handled

/-! ### All forms -/

theorem evalSpecial {f : Form} (kind : SpecialForm) (hm : s.Match (.transparent e) w t)
    (hp : p.Match w p') (hf : f.Mentions (Covered p.Keeps w s)) :
    Agree (.transparent e) p.Keeps w s Outcome.Match (k.evalSpecial p kind f s)
      (k'.evalSpecial p' kind f t) := by
  have args := hf.items.sublist (List.drop_sublist 1 _)
  have first : ((f.items.drop 1).head?.getD default).Mentions (Covered p.Keeps w s) := by
    cases hd : f.items.drop 1 with
    | nil => exact Form.mentions_default
    | cons g gs => exact (Form.mentionsAll_cons.1 (hd ▸ args)).1
  have misplaced : Agree (.transparent e) p.Keeps w s Outcome.Match
      (Eval.fail (malformed (f.headSymbol?.getD "") .misplaced p.cursor) s)
      (Eval.fail (malformed (f.headSymbol?.getD "") .misplaced p'.cursor) t) := by
    rw [← hp.cursor]
    exact (Sim.fail (.malformed ..)).agree hm
  cases kind with
  | quote =>
    exact ((Sim.valueOfForm _ (first.imp fun _ hn => hn.1)).bind fun _ hv => .pure (.value hv)).agree hm
  | conditional =>
    unfold Walker.evalSpecial
    dsimp only
    cases hd : f.items.drop 1 with
    | nil => exact misplaced
    | cons test branches =>
      obtain ⟨ht, hb⟩ := Form.mentionsAll_cons.1 (hd ▸ args)
      refine (hk.value hm hp ht).bind fun {w₁ s₁ t₁ v v'} hF hm₁ hv => ?_
      rw [hv.isTruthy_eq]
      cases hbr : (if v'.isTruthy = true then branches.head? else branches[1]?) with
      | none => exact .pure hm₁ (.value .nil)
      | some g =>
        have hg : g ∈ branches := by
          split at hbr
          · exact List.mem_of_mem_head? hbr
          · exact List.mem_of_getElem? hbr
        exact hk.eval hm₁ (hp.preserved hF hm₁) ((hb g hg).preserved hF hm₁)
  | sequence => exact hk.body hm hp args
  | letBinding => exact hk.evalLet hm hp hf
  | loop => exact hk.evalLoop hm hp hf
  | recur => exact (hk.values hm hp args).bind fun _ hm₁ hvs => .pure hm₁ (.recur hvs)
  | function => exact (evalFunction hm hp hf).bind fun _ hm₁ hv => .pure hm₁ (.value hv)
  | definition => exact (hk.evalDefinition hm hp hf).bind fun _ hm₁ hv => .pure hm₁ (.value hv)
  | macroDefinition => exact (evalMacroDefinition hm hp hf).bind fun _ hm₁ hv => .pure hm₁ (.value hv)
  | raise =>
    refine (hk.value hm hp first).bind fun _ hm₁ hv => ?_
    rw [← hp.cursor]
    exact (Sim.raiseAt _ hv).agree hm₁
  | attempt => exact hk.evalAttempt hm hp hf
  | template => exact misplaced
  | handler => exact misplaced
  | cleanup => exact misplaced

omit hk in
theorem evalLeaf {d : Leaf} {l : Location} (hp : p.Match w p') (hd : (Form.leaf d l).Mentions w.handle) :
    Sim (.transparent e) false w (Walker.evalLeaf p d) (Walker.evalLeaf p' d) Value.Match := by
  have value : Sim (.transparent e) false w (Eval.valueOfLeaf d) (Eval.valueOfLeaf d) Value.Match :=
    Sim.valueOfLeaf (Form.mentions_leaf.1 hd)
  cases d with
  | symbol name =>
    refine Sim.get fun {s t} hm => ?_
    rw [← hm.symbols_eq, ← hp.scope, ← hp.cursor]
    cases s.symbols.find? name with
    | none => exact .fail ((Fault.Match.of w _ (by rfl)).located _)
    | some x =>
      have found := hm.scopes_match.lookup? x hp.inUse
      dsimp only [Option.bind_some]
      generalize s.scopes.lookup? p.scope x = a at found ⊢
      generalize t.scopes.lookup? p.scope x = b at found ⊢
      cases found with
      | some hv => exact .pure hv
      | none => exact .fail ((Fault.Match.of w _ (by rfl)).located _)
  | _ => exact value

theorem evalCall {head : Form} {args : List Form} (hm : s.Match (.transparent e) w t) (hp : p.Match w p')
    (hf : head.Mentions (Covered p.Keeps w s)) (ha : Form.MentionsAll (Covered p.Keeps w s) args) :
    Agree (.transparent e) p.Keeps w s Value.Match (k.evalCall p head args s)
      (k'.evalCall p' head args t) := by
  refine (hk.value hm hp hf).bind fun {w₁ s₁ t₁ v v'} hF₁ hm₁ hv => ?_
  have inside (n : Node) (hn : p.Keeps n) : (p.holding [v]).Keeps n := hn.holding [v]
  refine (hk.values hm₁ ((hp.preserved hF₁ hm₁).holding fun hs => by rw [hv.eq hs])
    ((ha.preserved hF₁ hm₁).imp fun _ hn => hn.weaken inside)).bindKeeping inside
    fun {w₂ s₂ t₂ vs vs'} hF₂ hm₂ hvs => ?_
  have hv := hF₂.value hv fun n hn => WalkPlace.keeps_holding (by simpa [Node.ofValues] using hn)
  have locations : (args.map fun a => a.location.orElse p.cursor) =
      args.map fun a => a.location.orElse p'.cursor := by rw [hp.cursor]
  have hr : CallRequest.Match w₂ ⟨v, vs, p.cursor, _, p.held⟩ ⟨v', vs', p'.cursor, _, p'.held⟩ :=
    ⟨hv, hvs, hp.cursor, locations, fun hs => hp.held (hF₁.isSelf.1 (hF₂.isSelf.1 hs))⟩
  exact hk.call hm₂ hr

/-- **Whatever the form, what is kept suffices.** -/
theorem step {f : Form} (hm : s.Match (.transparent e) w t) (hp : p.Match w p')
    (hf : f.Mentions (Covered p.Keeps w s)) :
    Agree (.transparent e) p.Keeps w s Outcome.Match (k.step p f s) (k'.step p' f t) := by
  cases f with
  | leaf d l =>
    refine Sim.agree ((evalLeaf (hp.within l) (hf.imp fun _ hn => hn.1)).bind fun _ hv => ?_) hm
    exact .pure (.value hv)
  | group b items l =>
    have hi := Form.mentions_group.1 hf
    have hp' := hp.within l
    have values := hk.values hm hp' hi
    cases b with
    | vector =>
      refine values.bind fun _ hm₁ hvs => Sim.agree ?_ hm₁
      exact (Sim.newVector hvs).bind fun _ hv => .pure (.value hv)
    | set =>
      refine values.bind fun _ hm₁ hvs => Sim.agree ?_ hm₁
      exact (Sim.newSet hvs).bind fun _ hv => .pure (.value hv)
    | map =>
      refine values.bind fun _ hm₁ hvs => Sim.agree ?_ hm₁
      exact (Sim.newMap (pairUp_match hvs)).bind fun _ hv => .pure (.value hv)
    | list =>
      cases items with
      | nil => exact Sim.agree ((Sim.newList .nil).bind fun _ hv => .pure (.value hv)) hm
      | cons head args =>
        obtain ⟨hh, ha⟩ := Form.mentionsAll_cons.1 hi
        unfold Walker.step
        dsimp only
        cases head.symbolName?.bind SpecialForm.ofName? with
        | some kind => exact hk.evalSpecial kind hm hp' hf
        | none => exact (hk.evalCall hm hp' hh ha).bind fun _ hm₁ hv => .pure hm₁ (.value hv)

end Walker.Match

/-- **The walker does not notice collections**, whatever the fuel. -/
theorem walker_match {natives natives' : NativeRunner}
    (hn : NativeRunner.Match (.transparent e) natives natives') (fuel : Nat) :
    Walker.Match e (walker natives fuel) (walker natives' fuel) := by
  induction fuel with
  | zero => exact ⟨fun hm _ _ => .outOfFuel hm.eq, fun hm _ => .outOfFuel hm.eq, rfl⟩
  | succ fuel ih => exact ⟨ih.step, ih.apply hn, rfl⟩

namespace TreeWalk

variable {natives natives' : NativeRunner}

/-- A program that mentions only handles in use is run alike. -/
theorem run_match (hn : NativeRunner.Match (.transparent e) natives natives') (fuel : Nat) {f : Form}
    (hm : s.Match (.transparent e) w t) (hf : f.Mentions (Covered nothing w s)) :
    Agree (.transparent e) nothing w s Value.Match (run natives fuel f s) (run natives' fuel f t) := by
  have hp : WalkPlace.Match w ⟨.unknown, Scopes.root, []⟩ ⟨.unknown, Scopes.root, []⟩ :=
    ⟨rfl, rfl, hm.root, .inl rfl, fun _ => rfl⟩
  exact ((walker_match hn fuel).value hm hp (hf.imp fun _ hn => hn.weaken nofun)).weaken nofun

/-- Functions are called alike. -/
theorem call_match (hn : NativeRunner.Match (.transparent e) natives natives') (fuel : Nat) :
    Caller.Agree (.transparent e) (call natives fuel) (call natives' fuel) :=
  (walker_match hn fuel).callback

end TreeWalk

end TwinLisp
