import TwinLisp.Proofs.Correspondence.Native
import TwinLisp.Proofs.Transparency.Scope
import TwinLisp.TreeWalk.Call

/-!
# Walking over forms, with and without collection

Where evaluation stands is known from the code alone, and so it is the same on both sides, except for the
nodes to keep. Those are the ones that a collection on the first side leaves in common.

Whoever evaluates a form relies on two things: the scope is kept, and so is whatever the form mentions by
handle.

## Main definitions

* `WalkPlace.Match`, `CallRequest.Match` and `Outcome.Match`.
* `Walker.Match`: what it is for two walkers to agree.

## Main statements

* `Walker.Match.values`, `Walker.Match.body`: several forms in order.
* `Walker.Match.apply`: calls.
-/

namespace TwinLisp

/-- Two outcomes correspond. -/
inductive Outcome.Match (w : World) : Outcome → Outcome → Prop where
  | value {v v' : Value} : v.Match w v' → Match w (.value v) (.value v')
  | recur {vs vs' : List Value} : Value.MatchAll w vs vs' → Match w (.recur vs) (.recur vs')

/-- In a session that is compared with itself, outcomes correspond to themselves. -/
theorem Outcome.Match.eq {w : World} {o o' : Outcome} (h : o.Match w o') (hs : w.isSelf) : o = o' := by
  cases h with
  | value hv => rw [hv.eq hs]
  | recur hvs => rw [Value.Match.all_eq hvs hs]

/-- What a place keeps. -/
def WalkPlace.Keeps (p : WalkPlace) (n : Node) : Prop := n ∈ p.held

/-- What a call keeps. -/
def CallRequest.Keeps (r : CallRequest) (n : Node) : Prop := n ∈ r.held

/-- Evaluation stands at the same place, whose scope is kept. -/
structure WalkPlace.Match (w : World) (p p' : WalkPlace) : Prop where
  cursor : p.cursor = p'.cursor
  scope : p.scope = p'.scope
  inUse : w.scope p.scope
  kept : p.scope = Scopes.root ∨ p.Keeps (.scope p.scope)
  held : w.isSelf → p.held = p'.held

/-- Two calls correspond. -/
structure CallRequest.Match (w : World) (r r' : CallRequest) : Prop where
  callee : r.callee.Match w r'.callee
  args : Value.MatchAll w r.args r'.args
  site : r.site = r'.site
  locations : r.locations = r'.locations
  held : w.isSelf → r.held = r'.held

/-- Two walkers agree, whatever the forms and the calls. -/
structure Walker.Match (e : Terms) (k k' : Walker) : Prop where
  eval : ∀ {w : World} {s t : Session} {p p' : WalkPlace} {f : Form},
    s.Match (.transparent e) w t → p.Match w p' → f.Mentions (Covered p.Keeps w s) →
      Agree (.transparent e) p.Keeps w s Outcome.Match (k.eval p f s) (k'.eval p' f t)
  call : ∀ {w : World} {s t : Session} {r r' : CallRequest},
    s.Match (.transparent e) w t → r.Match w r' →
      Agree (.transparent e) r.Keeps w s Value.Match (k.call r s) (k'.call r' t)
  fuel : k.fuel = k'.fuel

variable {e : Terms} {w w' : World} {s s' t t' : Session} {p p' : WalkPlace}

/-! ### Places -/

namespace WalkPlace

theorem Keeps.holding {n : Node} (h : p.Keeps n) (vs : List Value) : (p.holding vs).Keeps n :=
  List.mem_append_right _ h

theorem keeps_holding {vs : List Value} {n : Node} (h : n ∈ Node.ofValues vs) :
    (p.holding vs).Keeps n :=
  List.mem_append_left _ h

theorem Keeps.inScope {n : Node} (h : p.Keeps n) (i : ScopeId) : (p.inScope i).Keeps n :=
  List.mem_cons_of_mem _ h

namespace Match

/-- The scope of a place goes on to correspond. -/
theorem preserved (h : p.Match w p') (hf : Preserves p.Keeps w s w' s')
    (hm : s'.Match (.transparent e) w' t') : p.Match w' p' where
  cursor := h.cursor
  scope := h.scope
  inUse := by
    rcases h.kept with hr | hk
    · exact hr ▸ hm.root
    · exact hf.scopes (.inl hk) h.inUse
  kept := h.kept
  held hs := h.held (hf.isSelf.1 hs)

theorem mono (h : p.Match w p') (hw : w ≤ w') : p.Match w' p' :=
  ⟨h.cursor, h.scope, hw.scope h.inUse, h.kept, fun hs => h.held (hw.isSelf.1 hs)⟩

theorem within (h : p.Match w p') (l : Location) : (p.within l).Match w (p'.within l) :=
  ⟨by rw [WalkPlace.within, WalkPlace.within, h.cursor], h.scope, h.inUse, h.kept, h.held⟩

theorem holding (h : p.Match w p') {vs vs' : List Value} (he : w.isSelf → vs = vs') :
    (p.holding vs).Match w (p'.holding vs') :=
  ⟨h.cursor, h.scope, h.inUse, h.kept.imp_right fun hk => hk.holding vs, fun hs => by
    rw [WalkPlace.holding, WalkPlace.holding, he hs, h.held hs]⟩

theorem inScope (h : p.Match w p') {i : ScopeId} (hi : w.scope i) :
    (p.inScope i).Match w (p'.inScope i) :=
  ⟨h.cursor, rfl, hi, .inr (List.mem_cons_self ..), fun hs => by
    rw [WalkPlace.inScope, WalkPlace.inScope, h.held hs]⟩

end Match

end WalkPlace

/-- What a form mentions goes on to be covered. -/
theorem Form.Mentions.preserved {K : Node → Prop} {f : Form} (h : f.Mentions (Covered K w s))
    (hf : Preserves K w s w' s') (hm : s'.Match (.transparent e) w' t') : f.Mentions (Covered K w' s') :=
  h.imp fun _ hn => hn.preserved hf hm

theorem Form.MentionsAll.preserved {K : Node → Prop} {fs : List Form}
    (h : Form.MentionsAll (Covered K w s) fs) (hf : Preserves K w s w' s')
    (hm : s'.Match (.transparent e) w' t') : Form.MentionsAll (Covered K w' s') fs :=
  h.imp fun _ hn => hn.preserved hf hm

namespace Walker.Match

variable {k k' : Walker} (hk : k.Match e k')
include hk

/-! ### Forms in order -/

theorem value {f : Form} (hm : s.Match (.transparent e) w t) (hp : p.Match w p')
    (hf : f.Mentions (Covered p.Keeps w s)) :
    Agree (.transparent e) p.Keeps w s Value.Match (k.value p f s) (k'.value p' f t) := by
  refine (hk.eval hm hp hf).bind fun _ hm' ho => ?_
  cases ho with
  | value hv => exact .pure hm' hv
  | recur _ => exact Sim.agree (.defect _ rfl) hm'

theorem values {fs : List Form} (hm : s.Match (.transparent e) w t) (hp : p.Match w p')
    (hf : Form.MentionsAll (Covered p.Keeps w s) fs) :
    Agree (.transparent e) p.Keeps w s Value.MatchAll (k.values p fs s) (k'.values p' fs t) := by
  induction fs generalizing p p' w s t with
  | nil => exact .pure hm .nil
  | cons f fs ih =>
    obtain ⟨hf, hs⟩ := Form.mentionsAll_cons.1 hf
    refine (hk.value hm hp hf).bind fun {w₁ s₁ t₁ v v'} hF hm₁ hv => ?_
    have rest : Form.MentionsAll (Covered (p.holding [v]).Keeps w₁ s₁) fs :=
      (hs.preserved hF hm₁).imp fun _ hn => hn.weaken fun _ h => h.holding [v]
    refine (ih hm₁ ((hp.preserved hF hm₁).holding fun hs => by rw [hv.eq hs]) rest).bindKeeping
      (fun _ h => h.holding [v]) fun hF hm₂ hvs => ?_
    exact .pure hm₂ (.cons (hF.value hv fun n hn => WalkPlace.keeps_holding (by simpa [Node.ofValues] using hn)) hvs)

theorem body {fs : List Form} (hm : s.Match (.transparent e) w t) (hp : p.Match w p')
    (hf : Form.MentionsAll (Covered p.Keeps w s) fs) :
    Agree (.transparent e) p.Keeps w s Outcome.Match (k.body p fs s) (k'.body p' fs t) := by
  induction fs generalizing w s t with
  | nil => exact .pure hm (.value .nil)
  | cons f fs ih =>
    obtain ⟨hg, hs⟩ := Form.mentionsAll_cons.1 hf
    cases fs with
    | nil => exact hk.eval hm hp hg
    | cons g gs =>
      exact (hk.value hm hp hg).bind fun hF hm₁ _ => ih hm₁ (hp.preserved hF hm₁) (hs.preserved hF hm₁)

/-- Functions are called alike from outside. -/
theorem callback : Caller.Agree (.transparent e) k.callback k'.callback := by
  intro w s t f f' args args' hm hf hargs
  refine (Sim.callSite (q := false)).andThen hm fun {w' s' t' l l'} hF hm' hl => ?_
  have hr : CallRequest.Match w' ⟨f, args, l, [], []⟩ ⟨f', args', l', [], []⟩ :=
    ⟨hf.mono hF.le, Value.Match.all_mono hargs hF.le, hl, rfl, fun _ => rfl⟩
  exact (hk.call hm' hr).weaken nofun

/-! ### Calls -/

omit hk in
theorem bindAll (i : ScopeId) {xs : List Symbol} {vs vs' : List Value} (h : Value.MatchAll w vs vs') :
    Sim (.transparent e) false w (Walker.bindAll i (xs.zip vs)) (Walker.bindAll i (xs.zip vs')) Done := by
  induction xs generalizing w vs vs' with
  | nil => exact .pure trivial
  | cons x xs ih =>
    cases h with
    | nil => exact .pure trivial
    | cons hv hs =>
      exact (Sim.define i x hv).bind fun hw _ => ih (Value.Match.all_mono hs hw)

omit hk in
theorem restArgument {vs vs' : List Value} (h : Value.MatchAll w vs vs') :
    Sim (.transparent e) false w (Walker.restArgument vs) (Walker.restArgument vs') Value.Match := by
  unfold Walker.restArgument
  cases h with
  | nil => exact .pure .nil
  | cons hv hs => exact .newList (.cons hv hs)

omit hk in
/-- The scope of a run is opened and filled alike. -/
theorem openRun {self self' : Value} {c : Closure} (o : ClosureOverload) (isFirst : Bool)
    {vs vs' : List Value} (hself : self.Match w self') (hc : w.scope c.scope)
    (h : Value.MatchAll w vs vs') :
    Sim (.transparent e) false w (Walker.openRun self c o isFirst vs)
      (Walker.openRun self' c o isFirst vs') fun w x y => x = y ∧ w.scope x := by
  refine (Sim.openScope hc).bind fun {w₁ i j} hw₁ hi => ?_
  obtain ⟨rfl, hi⟩ := hi
  have name : Sim (.transparent e) false w₁ (Walker.bindAll i (c.name.toList.map (·, self)))
      (Walker.bindAll i (c.name.toList.map (·, self'))) Done := by
    cases c.name with
    | none => exact .pure trivial
    | some x => exact (Sim.define i x (hself.mono hw₁)).bind fun _ _ => .pure trivial
  refine name.bind fun hw₂ _ => ?_
  have h := Value.Match.all_mono (Value.Match.all_mono h hw₁) hw₂
  refine (bindAll i h).bind fun hw₃ _ => ?_
  have h := Value.Match.all_mono h hw₃
  have hi := hw₃.scope (hw₂.scope hi)
  cases o.rest with
  | none => exact .pure ⟨rfl, hi⟩
  | some rest =>
    have extra := List.forall₂_drop o.params.length h
    cases isFirst with
    | true =>
      refine (restArgument extra).bind fun hw₄ hv => ?_
      exact (Sim.define i rest hv).bind fun hw₅ _ => .pure ⟨rfl, hw₅.scope (hw₄.scope hi)⟩
    | false =>
      refine (Sim.define i rest ?_).bind fun hw₄ _ => .pure ⟨rfl, hw₄.scope hi⟩
      rw [List.head?_eq_getElem?, List.head?_eq_getElem?]
      exact (getElem?_of_forall₂ extra 0).getD .nil

end Walker.Match

/-! ### Runs of a closure -/

/-- A function that is there can be called. -/
theorem Eval.blaming_callable (l : Location) {a : Address} {f : Function}
    (h : s.heap.get? a = some (.function f)) :
    Eval.blaming l (Eval.callable (.ref .function a)) s = .ok f s := by
  have function : Eval.function? (.ref .function a) s = .ok (some f) s :=
    (Eval.bind_eq_of_ok (Eval.object_eq_of_get? h)).trans rfl
  have called : Eval.callable (.ref .function a) s = .ok f s :=
    (Eval.bind_eq_of_ok function).trans rfl
  rw [Eval.blaming, Eval.mapFault, called]

/-- The two values are functions that run the closure `c`. -/
def Runs (w : World) (s : Session) (self self' : Value) (c : Closure) : Prop :=
  ∃ a b f, self = .ref .function a ∧ self' = .ref .function b ∧ w.live .function a b ∧
    s.heap.get? a = some (.function f) ∧ f.body = .interpreted c

namespace Runs

variable {K : Node → Prop} {self self' : Value} {c : Closure}

/-- A function that is kept goes on to run the same closure. -/
theorem preserved (h : Runs w s self self' c) (hf : Preserves K w s w' s')
    (hK : ∀ n ∈ Node.ofValue self, K n) : Runs w' s' self self' c := by
  obtain ⟨a, b, f, rfl, rfl, hl, ho, hb⟩ := h
  have ha : K (.object a) := hK _ (by simp [Node.ofValue])
  exact ⟨a, b, f, rfl, rfl, hf.objects (.inl ha) hl, hf.fixed (.inl ha) hl (fun h => by cases h) ho, hb⟩

theorem value (h : Runs w s self self' c) : self.Match w self' := by
  obtain ⟨a, b, f, rfl, rfl, hl, -⟩ := h
  exact .ref _ hl

theorem closure (h : Runs w s self self' c) (hm : s.Match (.transparent e) w t) : c.Match w c := by
  obtain ⟨a, b, f, rfl, rfl, hl, ho, hb⟩ := h
  obtain ⟨o, o', ho', -, -, hoo, -⟩ := hm.heap.objects hl
  rw [ho] at ho'
  cases ho'
  cases hoo with
  | @function _ g hfg =>
    have body : f.body.Match w g.body := hfg.body
    rw [hb] at body
    generalize g.body = d at body
    cases body with
    | interpreted h => exact ⟨rfl, h.scope, h.handles⟩

/-- A function that is kept covers what its bodies mention. -/
theorem covered (h : Runs w s self self' c) (hm : s.Match (.transparent e) w t)
    (hK : ∀ n ∈ Node.ofValue self, K n) {o : ClosureOverload} (ho : o ∈ c.overloads) :
    Form.MentionsAll (Covered K w s) o.body := by
  intro f hf n hn
  refine ⟨(h.closure hm).handles o ho f hf n hn, .inr ?_⟩
  obtain ⟨a, b, g, rfl, rfl, hl, hg, hb⟩ := h
  refine ⟨a, b, g, hK _ (by simp [Node.ofValue]), hl, hg, ?_⟩
  rw [Function.references, hb]
  refine List.mem_cons_of_mem _ (List.mem_flatMap.2 ⟨o, ho, ?_⟩)
  exact List.mem_map_of_mem (Form.mem_handlesOf.2 ⟨f, hf, hn⟩)

end Runs

namespace Walker.Match

variable {k k' : Walker} (hk : k.Match e k')
include hk

theorem runOverload {self self' : Value} {c : Closure} {o : ClosureOverload} (ho : o ∈ c.overloads)
    {held held' : List Node} (hheld : w.isSelf → held = held')
    (hself : ∀ n ∈ Node.ofValue self, n ∈ held) (fuel : Nat) (isFirst : Bool) {vs vs' : List Value}
    (hm : s.Match (.transparent e) w t)
    (hr : Runs w s self self' c) (h : Value.MatchAll w vs vs') :
    Agree (.transparent e) (· ∈ held) w s Value.Match (k.runOverload self c o held fuel isFirst vs s)
      (k'.runOverload self' c o held' fuel isFirst vs' t) := by
  induction fuel generalizing w s t isFirst vs vs' with
  | zero => exact .outOfFuel hm.eq
  | succ fuel ih =>
    refine (openRun o isFirst hr.value (hr.closure hm).scope h).andThen hm
      fun {w₁ s₁ t₁ i j} hF₁ hm₁ hi => ?_
    obtain ⟨rfl, hi⟩ := hi
    have hr := hr.preserved hF₁ fun _ _ => trivial
    have inside (n : Node) (hn : n ∈ held) : n ∈ Node.scope i :: held := List.mem_cons_of_mem _ hn
    have here (n : Node) (hn : n ∈ Node.ofValue self) : n ∈ Node.scope i :: held :=
      inside n (hself n hn)
    have hheld₁ (hs : w₁.isSelf) := hheld (hF₁.isSelf.1 hs)
    refine (Agree.maybeCollect (K := (· ∈ Node.scope i :: held)) hm₁ (fun _ => id) fun hs => by
      rw [hheld₁ hs]).bindKeeping inside fun {w₂ s₂ t₂ _ _} hF₂ hm₂ _ => ?_
    have hheld₂ (hs : w₂.isSelf) := hheld₁ (hF₂.isSelf.1 hs)
    have hr := hr.preserved hF₂ here
    have hp : WalkPlace.Match w₂ ⟨c.location, i, .scope i :: held⟩ ⟨c.location, i, .scope i :: held'⟩ :=
      ⟨rfl, rfl, hF₂.scopes (.inl (List.mem_cons_self ..)) hi, .inr (List.mem_cons_self ..),
        fun hs => by rw [hheld₂ hs]⟩
    refine (hk.body hm₂ hp (hr.covered hm₂ here ho)).bindKeeping inside fun hF₃ hm₃ ho => ?_
    cases ho with
    | value hv => exact .pure hm₃ hv
    | recur hvs => exact ih (fun hs => hheld₂ (hF₃.isSelf.1 hs)) false hm₃ (hr.preserved hF₃ here) hvs

theorem applyClosure {c : Closure} {r r' : CallRequest} (hm : s.Match (.transparent e) w t)
    (hr : r.Match w r') (hc : Runs w s r.callee r'.callee c) :
    Agree (.transparent e) r.Keeps w s Value.Match (k.applyClosure c r s) (k'.applyClosure c r' t) := by
  unfold Walker.applyClosure
  rw [← hr.args.length_eq]
  cases ho : c.select? r.args.length with
  | none =>
    refine (Sim.calleeName c.name).andThen hm fun _ hm' hx => ?_
    cases hx
    exact (Sim.failWith _ rfl).agree hm'
  | some o =>
    have ho : o ∈ c.overloads := by
      obtain ⟨i, -, hi⟩ := Option.bind_eq_some_iff.1 ho
      exact List.mem_of_getElem? hi
    refine Sim.enterCall.andThen hm fun {w₁ _ _ _ _} hF hm₁ _ => ?_
    have held (n : Node) (hn : r.Keeps n) : n ∈ Node.ofValue r.callee ++ r.held :=
      List.mem_append_right _ hn
    rw [← hk.fuel]
    have same (hs : w₁.isSelf) : Node.ofValue r.callee ++ r.held = Node.ofValue r'.callee ++ r'.held := by
      rw [hr.callee.eq (hF.isSelf.1 hs), hr.held (hF.isSelf.1 hs)]
    refine (hk.runOverload ho same (fun _ hn => List.mem_append_left _ hn) k.fuel true hm₁
      (hc.preserved hF fun _ _ => trivial) (Value.Match.all_mono hr.args hF.le)).always id (fun _ => rfl)
      (fun _ => id) fun hF hm₂ => ?_
    exact ⟨(hF.weaken held).trans (.of_le le_rfl (fun _ _ => id) rfl rfl rfl), Sim.leaveCall hm₂⟩

/-- **Calls agree.** -/
theorem apply {natives natives' : NativeRunner} (hn : NativeRunner.Match (.transparent e) natives natives')
    {r r' : CallRequest} (hm : s.Match (.transparent e) w t) (hr : r.Match w r') :
    Agree (.transparent e) r.Keeps w s Value.Match (k.apply natives r s)
      (k'.apply natives' r' t) := by
  have hc := hr
  obtain ⟨callee, args, site, locations, held⟩ := r
  obtain ⟨callee', args', site', locations', held'⟩ := r'
  obtain ⟨hcallee, hargs, rfl, rfl, -⟩ := hr
  dsimp only at hcallee hargs
  have data := ((Sim.callData (S := .transparent e) (q := false) hcallee hargs).attributed site
    locations).agree (K := (· ∈ held)) hm
  have other : Agree (.transparent e) (· ∈ held) w s Value.Match
      (Eval.blaming site (Eval.failWith (.notCallable callee.typeName)) s)
      (Eval.blaming site (Eval.failWith (.notCallable callee'.typeName)) t) := by
    rw [hcallee.typeName_eq]
    exact ((Sim.failWith _ rfl).blaming site).agree hm
  cases hcallee with
  | keyword _ => exact data
  | ref l hl => cases l with
    | map => exact data
    | set => exact data
    | vector => exact data
    | function =>
      obtain ⟨o, o', ho, ho', hkind, hoo, -⟩ := hm.heap.objects hl
      cases hoo with
      | @function f g hfg =>
        unfold Walker.apply
        dsimp only
        rw [Eval.bind_eq_of_ok (Eval.blaming_callable site ho),
          Eval.bind_eq_of_ok (Eval.blaming_callable site ho')]
        have body : f.body.Match w g.body := hfg.body
        generalize hb : f.body = b at body
        generalize g.body = c at body
        cases body with
        | native n => exact ((hn n (Caller.Agree.quiet hk.callback) hargs).attributed site locations).agree hm
        | compiled _ _ => exact ((Sim.defect _ rfl).blaming site).agree hm
        | interpreted h =>
          cases h.eq
          exact (hk.applyClosure hm hc ⟨_, _, f, rfl, rfl, hl, ho, hb⟩).blaming site
      | _ => cases hkind
    | _ => exact other
  | _ => exact other

end Walker.Match

end TwinLisp
