import TwinLisp.Machine.Step
import TwinLisp.Proofs.Correspondence.Native
import TwinLisp.Proofs.Transparency.Frames

/-!
# One instruction, with and without collection

A step of the machine may end with a failure, and that is a result like others. So machines that
correspond *advance*: they lead to machines that correspond, or one of the sessions has ended.

## Main definitions

* `Progress.Match` and `Advances`.

## Main statements

* `Machine.Match.execute`, `Machine.Match.step`: whatever the instruction, the roots of the machine
  suffice.
-/

namespace TwinLisp

variable {e : Terms} {w w' : World} {s s' t t' : Session}

/-- Two steps lead to the same. -/
inductive Progress.Match (w : World) : Progress → Progress → Prop where
  | running {m m' : Machine} : m.Match w m' → Match w (.running m) (.running m')
  | finished {m m' : Machine} {v v' : Value} : m.Match w m' → v.Match w v' →
    Match w (.finished m v) (.finished m' v')
  | failed {m m' : Machine} {f g : Fault} : m.Match w m' → f.Match w g →
    Match w (.failed m f) (.failed m' g)

/-- Two steps lead to the same, or a session has ended. -/
inductive Advances (e : Terms) (w : World) (s : Session) :
    EStateM.Result Stop Session Progress → EStateM.Result Stop Session Progress → Prop where
  | agree {r r'} : Agree (.transparent e) nothing w s Progress.Match r r' → Advances e w s r r'
  | fatal {m f s' r'} : f.isFatal = true →
    (w.isSelf → s'.terminated = true ∧ r' = .ok (.failed m f) s') →
    Advances e w s (.ok (.failed m f) s') r'
  | fatalRight {m g r t'} : e.mayEnd → g.isFatal = true → Advances e w s r (.ok (.failed m g) t')

namespace Advances

variable {α β : Type} {R : Related α β} {K : Node → Prop} {m m' : Machine}

theorem pure {p p' : Progress} (hm : s.Match (.transparent e) w t) (h : p.Match w p') :
    Advances e w s ((Pure.pure p : Eval Progress) s) ((Pure.pure p' : Eval Progress) t) :=
  .agree (.pure hm h)

theorem broken (hm : s.Match (.transparent e) w t) (h : m.Match w m') (d : Defect)
    (noLoss : (Cause.defect d).isLoss = false) :
    Advances e w s ((Pure.pure (m.broken d) : Eval Progress) s)
      ((Pure.pure (m'.broken d) : Eval Progress) t) :=
  .pure hm (.failed h (.of w _ noLoss))

theorem after (hF : Preserves K w s w' s') {r r'} (h : Advances e w' s' r r') : Advances e w s r r' := by
  cases h with
  | agree h => exact .agree (h.preserved (hF.weaken nofun))
  | fatal h hs => exact .fatal h fun self => hs (hF.isSelf.2 self)
  | fatalRight he h => exact .fatalRight he h

/-- Steps may look at the sessions. -/
theorem get {f g : Session → Eval Progress} (h : Advances e w s (f s s) (g t t)) :
    Advances e w s ((MonadState.get >>= f) s) ((MonadState.get >>= g) t) :=
  h

theorem bind {x : Eval α} {y : Eval β} {f : α → Eval Progress} {g : β → Eval Progress}
    (h : Agree (.transparent e) K w s R (x s) (y t))
    (hfg : ∀ {w' s' t' a b}, Preserves K w s w' s' → s'.Match (.transparent e) w' t' → R w' a b →
      Advances e w' s' (f a s') (g b t')) :
    Advances e w s ((x >>= f) s) ((y >>= g) t) := by
  change Advances e w s (EStateM.bind x f s) (EStateM.bind y g t)
  unfold EStateM.bind
  generalize x s = r at h ⊢
  generalize y t = r' at h ⊢
  cases h with
  | ok hF hm hr => exact (hfg hF hm hr).after hF
  | fault hF hm hg => exact .agree (.fault (hF.weaken nofun) hm hg)
  | outOfFuel hs => exact .agree (.outOfFuel hs)
  | fatal h hs =>
    refine .agree (.fatal h fun self => ?_)
    obtain ⟨ended, rfl⟩ := hs self
    exact ⟨ended, rfl⟩
  | fatalRight he h => exact .agree (.fatalRight he h)

/-- A part of a step that does not touch the machine may fail. -/
theorem attempt {x : Eval α} {y : Eval β} {f : Except Fault α → Eval Progress}
    {g : Except Fault β → Eval Progress} (hm : s.Match (.transparent e) w t) (h : m.Match w m')
    (hxy : Sim (.transparent e) false w x y R)
    (hf : ∀ c s, f (.error c) s = .ok (.failed m c) s)
    (hg : ∀ c s, g (.error c) s = .ok (.failed m' c) s)
    (hfg : ∀ {w' s' t' a b}, w ≤ w' → s'.Match (.transparent e) w' t' → R w' a b →
      Advances e w' s' (f (.ok a) s') (g (.ok b) t')) :
    Advances e w s ((Eval.attempt x >>= f) s) ((Eval.attempt y >>= g) t) := by
  have hxy := hxy hm nofun
  change Advances e w s (EStateM.bind (Eval.attempt x) f s) (EStateM.bind (Eval.attempt y) g t)
  unfold EStateM.bind Eval.attempt
  generalize x s = r at hxy ⊢
  generalize y t = r' at hxy ⊢
  cases hxy with
  | ok hF hm' hr => exact (hfg hF.le hm' hr).after hF
  | fault hF hm' hc =>
    simp only [hf, hg]
    exact .agree (.ok (hF.weaken nofun) hm' (.failed (h.mono hF.le) hc))
  | outOfFuel hs => exact .agree (.outOfFuel hs)
  | fatal hc hs =>
    simp only [hf]
    refine .fatal hc fun self => ?_
    obtain ⟨ended, rfl⟩ := hs self
    refine ⟨ended, ?_⟩
    rw [h.eq self]
    exact hg _ _
  | fatalRight he hc =>
    simp only [hg]
    exact .fatalRight he hc

theorem trying {x : Eval α} {y : Eval β} {next : Machine → α → Progress}
    {next' : Machine → β → Progress} (hm : s.Match (.transparent e) w t) (h : m.Match w m')
    (hxy : Sim (.transparent e) false w x y R)
    (hn : ∀ {w' a b}, w ≤ w' → m.Match w' m' → R w' a b → (next m a).Match w' (next' m' b)) :
    Advances e w s (m.trying x next s) (m'.trying y next' t) :=
  attempt hm h hxy (fun _ _ => rfl) (fun _ _ => rfl) fun hw hm' hr =>
    .pure hm' (hn hw (h.mono hw) hr)

theorem pushing {x y : Eval Value} (hm : s.Match (.transparent e) w t) (h : m.Match w m')
    (hxy : Sim (.transparent e) false w x y Value.Match) :
    Advances e w s (m.pushing x s) (m'.pushing y t) :=
  trying hm h hxy fun _ h hv => .running (h.push hv)

/-- The machines lend their operands to computations that agree. -/
theorem lending {x y : Eval Value} (hm : s.Match (.transparent e) w t) (h : m.Match w m')
    (hxy : Sim (.transparent e) false w x y Value.Match) :
    Advances e w s (m.lending x s) (m'.lending y t) := by
  have lent : Session.Match (.transparent e) w { s with operands := m.operands }
      { t with operands := m'.operands } :=
    { hm with eq := fun hs => by rw [hm.eq hs, h.eq hs], operands := h.operands }
  have back {w' : World} {s' t' : Session} (hF : Preserves everything w { s with operands := m.operands } w' s')
      (hm' : s'.Match (.transparent e) w' t') :
      Preserves nothing w s w' { s' with operands := s.operands } ∧
        Session.Match (.transparent e) w' { s' with operands := s.operands }
          { t' with operands := t.operands } :=
    ⟨Preserves.of_le hF.le (hF.fixed (.inl trivial)) hF.floor hF.inhibited hF.nesting,
      { hm' with
        eq := fun hs => by rw [hm'.eq hs, hm.eq (hF.isSelf.1 hs)]
        operands := hm.operands_mono hF.le }⟩
  have hxy := hxy lent nofun
  change Advances e w s (EStateM.bind (Eval.lending m.operands x) _ s)
    (EStateM.bind (Eval.lending m'.operands y) _ t)
  unfold EStateM.bind Eval.lending
  generalize x { s with operands := m.operands } = r at hxy ⊢
  generalize y { t with operands := m'.operands } = r' at hxy ⊢
  cases hxy with
  | ok hF hm' hv =>
    obtain ⟨kept, matched⟩ := back hF hm'
    exact .agree (.ok kept matched (.running (((h.mono hF.le).withOperands hm'.operands).push hv)))
  | fault hF hm' hf =>
    obtain ⟨kept, matched⟩ := back hF hm'
    exact .agree (.ok kept matched (.failed ((h.mono hF.le).withOperands hm'.operands) hf))
  | outOfFuel hs => exact .agree (.outOfFuel hs)
  | fatal hf hs =>
    refine .fatal hf fun self => ?_
    obtain ⟨ended, rfl⟩ := hs self
    refine ⟨ended, ?_⟩
    rw [hm.eq self, h.eq self]
    rfl
  | fatalRight he hf => exact .fatalRight he hf

end Advances

/-! ### Calls -/

/-- Two callees are run alike. -/
inductive Callee.Match (w : World) : Callee → Callee → Prop where
  | compiled {p q : Prototype} {captured captured' : Array Value} (hp : p.Match w q)
    (hc : Value.MatchAll w captured.toList captured'.toList) :
    Callee.Match w (.compiled p captured) (.compiled q captured')
  | native (n : Native) : Callee.Match w (.native n) (.native n)
  | data : Callee.Match w .data .data

namespace Sim

variable {v v' : Value}

/-- Functions that correspond are called alike. -/
theorem callable (h : v.Match w v') :
    Sim (.transparent e) false w (Eval.callable v) (Eval.callable v')
      (Function.Match (.transparent e)) := by
  refine (Sim.function? h).bind fun {_ f g} hw hf => ?_
  cases hf with
  | some hf => exact .pure hf
  | none =>
    rw [h.typeName_eq]
    exact .failWith _ rfl

theorem callee (h : v.Match w v') (l : Location) :
    Sim (.transparent e) false w (Callee.of v l) (Callee.of v' l) Callee.Match := by
  have other (name : String) : Sim (.transparent e) false w
      (Eval.blaming l (Eval.failWith (.notCallable name)) : Eval Callee)
      (Eval.blaming l (Eval.failWith (.notCallable name))) Callee.Match := (Sim.failWith _ rfl).blaming l
  cases h with
  | keyword _ => exact .pure .data
  | ref k hl => cases k with
    | map => exact .pure .data
    | set => exact .pure .data
    | vector => exact .pure .data
    | function =>
      refine ((callable (.ref _ hl)).blaming l).bind fun {_ f g} _ hfg => ?_
      have body : f.body.Match _ g.body := hfg.body
      generalize f.body = b at body ⊢
      generalize g.body = c at body ⊢
      cases body with
      | native n => exact .pure (.native n)
      | compiled hp hc => exact .pure (.compiled hp hc)
      | interpreted _ => exact (Sim.defect _ rfl).blaming l
    | _ => exact other _
  | _ => exact other _

theorem restArgument {vs vs' : List Value} (h : Value.MatchAll w vs vs') :
    Sim (.transparent e) false w (Machine.restArgument vs) (Machine.restArgument vs') Value.Match := by
  unfold Machine.restArgument
  cases h with
  | nil => exact .pure .nil
  | cons hv hs => exact .newList (.cons hv hs)

theorem leavingCall : Sim (.transparent e) false w (modify Eval.leaveCall : Eval Unit)
    (modify Eval.leaveCall) Done :=
  change (fun _ => rfl) (fun _ => rfl) (fun _ => rfl) leaveCall

theorem restOperand (hasRest : Bool) {vs vs' : List Value} (h : Value.MatchAll w vs vs') :
    Sim (.transparent e) false w (Machine.restOperand hasRest vs) (Machine.restOperand hasRest vs')
      Value.MatchAll := by
  unfold Machine.restOperand
  cases hasRest with
  | false => exact .pure .nil
  | true =>
    intro s t hm _
    refine (restArgument h hm nofun).attempt (.alike fun _ _ hf => ⟨_, Eval.leaveCall _, hf, id, rfl, rfl⟩)
      fun hF hm' ho => ?_
    cases ho with
    | ok hv => exact .pure hm' (.cons hv .nil)
    | error hf => exact (leavingCall.bind fun hw _ => .fail (hf.mono hw)) hm' nofun

end Sim

namespace Machine

/-- Two frames that are entered correspond, and so does what is in their slots. -/
abbrev Entered : Related (Frame × Array Value) (Frame × Array Value) :=
  fun w a b => a.1.Match w b.1 ∧ Value.MatchAll w a.2.toList b.2.toList

/-- The frame for a call is made alike. -/
theorem enter_match {callee callee' : Value} {p q : Prototype} {captured captured' : Array Value}
    {args args' : List Value} (bottom : Nat) (site : Location) (hcallee : callee.Match w callee')
    (hp : p.Match w q) (hc : Value.MatchAll w captured.toList captured'.toList)
    (ha : Value.MatchAll w args args') :
    Sim (.transparent e) false w (enter callee p captured args bottom site)
      (enter callee' q captured' args' bottom site) Entered := by
  refine Sim.blaming ?_ site
  have selected := hp.select args'.length
  rw [ha.length_eq]
  generalize hs : p.selectArity? args'.length = x at selected ⊢
  generalize q.selectArity? args'.length = y at selected ⊢
  cases selected with
  | none =>
    rw [hp.name_eq, hp.overloads_eq]
    refine (Sim.calleeName q.name).bind fun _ hx => ?_
    cases hx
    exact .failWith _ rfl
  | @some c d hcd =>
    dsimp only
    refine Sim.enterCall.bind fun hw₁ _ => ?_
    rw [hcd.hasRest_eq, hcd.params_eq]
    have rest := List.forall₂_drop d.params (Value.Match.all_mono ha hw₁)
    refine (Sim.restOperand _ rest).bind fun hw₂ hr => .pure ?_
    have hw := hw₁.trans hw₂
    refine ⟨?_, .cons (hcallee.mono hw)
      (List.rel_append (List.forall₂_take _ (Value.Match.all_mono ha hw)) hr)⟩
    exact {
      prototype := hp.mono hw
      code := Prototype.ArityMatch.mono hcd hw
      mem := Prototype.mem_of_select hs
      ip := rfl
      bottom := rfl
      captured := Value.Match.all_mono hc hw
      site := rfl
      isCounted := rfl }

/-- Both sides find something that corresponds, or the same defect. -/
inductive Found {α β : Type} (R : α → β → Prop) : Except Defect α → Except Defect β → Prop where
  | ok {a b} : R a b → Found R (.ok a) (.ok b)
  | error (d : Defect) (noLoss : (Cause.defect d).isLoss = false) : Found R (.error d) (.error d)

namespace Found

variable {α β γ : Type} {R : α → β → Prop}

theorem elim {x : Option α} {y : Option β} (h : Option.Rel R x y) (d : Defect)
    (noLoss : (Cause.defect d).isLoss = false) :
    Found R (x.elim (.error d) .ok) (y.elim (.error d) .ok) := by
  cases h with
  | some h => exact .ok h
  | none => exact .error d noLoss

theorem mapM {f : γ → Except Defect α} {g : γ → Except Defect β} {cs : List γ}
    (h : ∀ c ∈ cs, Found R (f c) (g c)) : Found (List.Forall₂ R) (cs.mapM f) (cs.mapM g) := by
  induction cs with
  | nil => exact .ok .nil
  | cons c cs ih =>
    obtain ⟨hc, hs⟩ := List.forall_mem_cons.1 h
    have rest := ih hs
    rw [List.mapM_cons, List.mapM_cons]
    generalize f c = x at hc ⊢
    generalize g c = y at hc ⊢
    generalize cs.mapM f = xs at rest ⊢
    generalize cs.mapM g = ys at rest ⊢
    cases hc with
    | error d noLoss => exact .error d noLoss
    | ok hr =>
      cases rest with
      | error d noLoss => exact .error d noLoss
      | ok hrs => exact .ok (.cons hr hrs)

end Found

namespace Match

variable {m m' : Machine} {natives natives' : NativeRunner} {back back' : Caller}

/-! ### Instructions -/

theorem pushFound (h : m.Match w m') {x y : Option Value} (hv : Option.Rel (Value.Match w) x y)
    (d : Defect) (noLoss : (Cause.defect d).isLoss = false) :
    (m.pushFound x d).Match w (m'.pushFound y d) := by
  cases hv with
  | some hv => exact .running (h.push hv)
  | none => exact .failed h (.of w _ noLoss)

theorem call (hn : NativeRunner.Match (.transparent e) natives natives')
    (hb : Caller.Match (.transparent e) back back') (hm : s.Match (.transparent e) w t)
    (h : m.Match w m') (argc site : Nat) :
    Advances e w s (Machine.call natives back m argc site s)
      (Machine.call natives' back' m' argc site t) := by
  unfold Machine.call
  rw [h.site?_eq]
  cases m'.site? site with
  | none => exact .broken hm h _ rfl
  | some sites =>
    dsimp only
    have top := h.topmost? (argc + 1)
    generalize m.topmost? (argc + 1) = x at top ⊢
    generalize m'.topmost? (argc + 1) = y at top ⊢
    cases top with
    | none => exact .broken hm h _ rfl
    | some hvs =>
    cases hvs with
    | nil => exact .broken hm h _ rfl
    | cons hcallee ha =>
      dsimp only
      refine Advances.attempt hm h (Sim.callee hcallee _) (fun _ _ => rfl) (fun _ _ => rfl)
        fun hw hm' hc => ?_
      have h := h.mono hw
      have hcallee := hcallee.mono hw
      have ha := Value.Match.all_mono ha hw
      cases hc with
      | compiled hp hcap =>
        dsimp only
        rw [h.size_eq]
        exact .trying hm' h (enter_match _ _ hcallee hp hcap ha) fun _ h hf =>
          .running ((h.drop _).calling hf.1 hf.2)
      | native n => exact .lending hm' (h.drop _) ((hn n hb ha).attributed _ _)
      | data => exact .pushing hm' (h.drop _) ((Sim.callData hcallee ha).attributed _ _)

theorem leave (h : m.Match w m') {v v' : Value} (hv : v.Match w v') :
    (m.leave v).Match w (m'.leave v') := by
  have below := h.shrink m.top.bottom
  have callers := h.callers
  generalize hc : m.callers = fs at callers
  generalize hc' : m'.callers = gs at callers
  cases callers with
  | nil =>
    rw [leave_of_nil hc, leave_of_nil hc', ← h.top.bottom]
    exact .finished below hv
  | cons hf hs =>
    rw [leave_of_cons hc, leave_of_cons hc', ← h.top.bottom]
    have returned : Match w { m.shrink m.top.bottom with top := _, callers := _ }
        { m'.shrink m.top.bottom with top := _, callers := _ } :=
      { below with top := hf, callers := hs }
    exact .running (returned.push hv)

theorem ret (hm : s.Match (.transparent e) w t) (h : m.Match w m') :
    Advances e w s (Machine.ret m s) (Machine.ret m' t) := by
  unfold Machine.ret
  refine h.popCases (.broken hm h _ rfl) fun v v' k k' hv hk => ?_
  dsimp only
  rw [hk.top.isCounted]
  split
  · exact .bind (Sim.leavingCall hm nofun) fun hF hm' _ =>
      .pure hm' ((hk.mono hF.le).leave (hv.mono hF.le))
  · exact .pure hm (hk.leave hv)

/-- Both sides capture values that correspond, or find the same defect. -/
theorem captured (h : m.Match w m') (c : Capture) :
    Found (Value.Match w) (m.captured c) (m'.captured c) := by
  cases c with
  | fromSlot i => exact .elim (h.slot? i) _ rfl
  | fromCapture i => exact .elim (h.captured? i) _ rfl

theorem capture (h : m.Match w m') {p q : Prototype} (hp : p.Match w q) :
    Found (Value.MatchAll w) (m.capture p) (m'.capture q) := by
  unfold Machine.capture
  rw [hp.captures_eq]
  exact .mapM fun c _ => h.captured c

theorem closure (hm : s.Match (.transparent e) w t) (h : m.Match w m') (i : Nat) (isMacro : Bool) :
    Advances e w s (Machine.closure m i isMacro s) (Machine.closure m' i isMacro t) := by
  unfold Machine.closure
  have found := getElem?_of_forall₂ h.top.code.prototypes i
  generalize m.top.code.prototypes[i]? = x at found ⊢
  generalize m'.top.code.prototypes[i]? = y at found ⊢
  cases found with
  | none => exact .broken hm h _ rfl
  | @some p q hp =>
    dsimp only
    have captured := h.capture hp
    generalize m.capture p = x at captured ⊢
    generalize m'.capture q = y at captured ⊢
    cases captured with
    | error d noLoss => exact .broken hm h d noLoss
    | ok hall =>
      refine .pushing hm h (.new (.function ⟨?_, rfl, .compiled hp (by simpa using hall)⟩))
      have name {x : Symbol} := hp.name (x := x)
      rw [hp.name_eq] at name ⊢
      cases hn : q.name with
      | none => exact .none
      | some x => exact .some (name hn)

theorem binary (hm : s.Match (.transparent e) w t) (h : m.Match w m') (site : Nat)
    {f : Value → Value → Except NumericFault Value}
    (hf : ∀ {a a' b b' : Value}, a.Match w a' → b.Match w b' → f a b = f a' b')
    (hv : ∀ a b : Value, Settles (fun v => v.Match w v) (f a b)) :
    Advances e w s (Machine.binary m site f s) (Machine.binary m' site f t) := by
  unfold Machine.binary
  refine h.popCases (.broken hm h _ rfl) fun b b' k k' hb hk => ?_
  dsimp only
  refine hk.popCases (.broken hm hk _ rfl) fun a a' k k' ha hk => ?_
  dsimp only
  rw [hk.site?_eq]
  cases k'.site? site with
  | none => exact .broken hm hk _ rfl
  | some sites =>
    dsimp only
    rw [hf ha hb]
    exact .pushing hm hk ((Sim.settle 0 (hv _ _)).attributed _ _)

theorem build (hm : s.Match (.transparent e) w t) (h : m.Match w m') (n : Nat)
    {make : List Value → Eval Value} (hmake : ∀ {vs vs'}, Value.MatchAll w vs vs' →
      Sim (.transparent e) false w (make vs) (make vs') Value.Match) :
    Advances e w s (Machine.build m n make s) (Machine.build m' n make t) := by
  unfold Machine.build
  refine h.popManyCases n (.broken hm h _ rfl) fun vs vs' k k' hvs hk => ?_
  exact .pushing hm hk (hmake hvs)

theorem loadGlobal (hm : s.Match (.transparent e) w t) (h : m.Match w m') (i : Nat) :
    Advances e w s (Machine.loadGlobal m i s) (Machine.loadGlobal m' i t) := by
  unfold Machine.loadGlobal
  have found := h.constant? i
  generalize m.constant? i = x at found ⊢
  generalize m'.constant? i = y at found ⊢
  cases found with
  | none => exact .broken hm h _ rfl
  | some hc =>
    cases hc with
    | @symbol x _ hx =>
      cases hm.eq_of_sym hx
      refine .get ?_
      rw [h.location_eq, ← hm.symbols_eq, Session.global?, Session.global?]
      have bound := hm.scopes_match.lookup? x hm.root
      generalize s.scopes.lookup? Scopes.root x = y at bound ⊢
      generalize t.scopes.lookup? Scopes.root x = z at bound ⊢
      cases bound with
      | some hv => exact .pure hm (.running (h.push hv))
      | none => exact .pure hm (.failed h ((Fault.Match.of w _ (by rfl)).located _))
    | _ => exact .broken hm h _ rfl

theorem defGlobal (hm : s.Match (.transparent e) w t) (h : m.Match w m') (i : Nat) :
    Advances e w s (Machine.defGlobal m i s) (Machine.defGlobal m' i t) := by
  unfold Machine.defGlobal
  have found := h.constant? i
  generalize m.constant? i = x at found ⊢
  generalize m'.constant? i = y at found ⊢
  refine h.popCases ?_ fun v v' k k' hv hk => ?_
  · cases found with
    | none => exact .broken hm h _ rfl
    | some hc =>
      cases hc with
      | _ => exact .broken hm h _ rfl
  · cases found with
    | none => exact .broken hm h _ rfl
    | some hc =>
      cases hc with
      | symbol hx =>
        refine .bind (Sim.defineGlobal (q := false) hx hv hm nofun) fun hF hm' _ => ?_
        exact .pure hm' (.running ((hk.mono hF.le).push (.symbol (hF.sym hx))))
      | _ => exact .broken hm h _ rfl

theorem install (hm : s.Match (.transparent e) w t) (h : m.Match w m') (kind : HandlerKind)
    (offset : Int) :
    Advances e w s (Machine.install m kind offset s) (Machine.install m' kind offset t) := by
  refine .get (.pure hm (.running { h with handlers := ?_ }))
  rw [h.callers.length_eq, h.top.ip, h.size_eq, hm.callDepth, h.held.length_eq, h.handlers]

/-! ### All instructions -/

/-- **Whatever the instruction, the roots of the machine suffice.** -/
theorem execute (hn : NativeRunner.Match (.transparent e) natives natives')
    (hb : Caller.Match (.transparent e) back back') (hm : s.Match (.transparent e) w t)
    (h : m.Match w m') (i : Instruction) :
    Advances e w s (Machine.execute natives back m i s) (Machine.execute natives' back' m' i t) := by
  unfold Machine.execute
  cases i with
  | const i => exact .pure hm (h.pushFound (h.constant? i) _ rfl)
  | pushNil => exact .pure hm (.running (h.push .nil))
  | pushTrue => exact .pure hm (.running (h.push (.bool true)))
  | pushFalse => exact .pure hm (.running (h.push (.bool false)))
  | pop =>
    dsimp only
    exact h.popCases (.broken hm h _ rfl) fun _ _ _ _ _ hk => .pure hm (.running hk)
  | endScope n =>
    dsimp only
    exact h.popCases (.broken hm h _ rfl) fun v v' k k' hv hk => .pure hm (.running ((hk.drop n).push hv))
  | truncate n =>
    dsimp only
    rw [h.top.bottom]
    exact .pure hm (.running (h.shrink _))
  | loadLocal i => exact .pure hm (h.pushFound (h.slot? i) _ rfl)
  | storeLocal i =>
    dsimp only
    refine h.popCases (.broken hm h _ rfl) fun v v' k k' hv hk => ?_
    dsimp only
    rw [hk.size_eq, hk.top.bottom]
    split
    · refine .pure hm (.running (hk.withOperands ?_))
      simpa using forall₂_set hk.operands hv _
    · exact .broken hm hk _ rfl
  | loadCapture i => exact .pure hm (h.pushFound (h.captured? i) _ rfl)
  | loadGlobal i => exact h.loadGlobal hm i
  | defGlobal i => exact h.defGlobal hm i
  | jump offset =>
    dsimp only
    split
    · refine .bind (K := (· ∈ m.roots)) (.maybeCollect hm (fun _ => id) fun hs => by rw [h.eq hs]) fun hF hm' _ => ?_
      exact .pure hm' (.running ((h.preserved hF fun _ => id).jump offset))
    · exact .pure hm (.running (h.jump offset))
  | popJumpIfFalse offset =>
    dsimp only
    refine h.popCases (.broken hm h _ rfl) fun v v' k k' hv hk => ?_
    dsimp only
    rw [hv.isTruthy_eq]
    split
    · exact .pure hm (.running hk)
    · exact .pure hm (.running (hk.jump offset))
  | call argc site =>
    refine .bind (K := (· ∈ m.roots)) (.maybeCollect hm (fun _ => id) fun hs => by rw [h.eq hs]) fun hF hm' _ => ?_
    exact (h.preserved hF fun _ => id).call hn hb hm' argc site
  | ret => exact h.ret hm
  | raise =>
    dsimp only
    refine h.popCases (.broken hm h _ rfl) fun v v' k k' hv hk => ?_
    dsimp only
    rw [hk.location_eq]
    exact .trying hm hk (Sim.raiseAt _ hv) fun _ _ hp => hp
  | pushCatch offset => exact h.install hm .catching offset
  | pushFinally offset => exact h.install hm .cleanup offset
  | popHandler =>
    dsimp only
    rw [← h.handlers]
    cases m.handlers with
    | nil => exact .broken hm h _ rfl
    | cons _ handlers => exact .pure hm (.running { h with handlers := rfl })
  | rethrow =>
    have held := h.held
    dsimp only
    generalize m.held = fs at held ⊢
    generalize m'.held = gs at held ⊢
    cases held with
    | nil => exact .broken hm h _ rfl
    | cons hf hs => exact .pure hm (.failed { h with held := hs } hf)
  | closure i => exact h.closure hm i false
  | macroClosure i => exact h.closure hm i true
  | arith op site =>
    exact h.binary hm site (Numeric.arith_eq op) fun a b =>
      (Numeric.numerical_arith op a b).imp fun _ => .of_isNumber
  | compare op site =>
    refine h.binary hm site (fun ha hb => by rw [Numeric.compareNumbers_eq op ha hb]) fun a b => ?_
    exact (Numeric.settles_compareNumbers op a b).bind fun c _ => .bool c
  | buildList n => exact h.build hm n .newList
  | buildVector n => exact h.build hm n .newVector
  | buildMap n => exact h.build hm n fun hvs => .newMap (pairUp_match hvs)
  | buildSet n => exact h.build hm n .newSet

/-- **One instruction does the same on both sides.** -/
theorem step (hn : NativeRunner.Match (.transparent e) natives natives')
    (hb : Caller.Match (.transparent e) back back') (hm : s.Match (.transparent e) w t)
    (h : m.Match w m') :
    Advances e w s (Machine.step natives back m s) (Machine.step natives' back' m' t) := by
  unfold Machine.step
  rw [← h.top.code.code_eq, ← h.top.ip]
  cases m.top.code.code[m.top.ip]? with
  | none => exact .broken hm h _ rfl
  | some i => exact execute hn hb hm (h.goto _) i

end Match

end Machine

end TwinLisp
