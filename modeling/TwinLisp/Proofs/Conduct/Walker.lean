import TwinLisp.Proofs.Conduct.Native
import TwinLisp.Proofs.Special.Accepted
import TwinLisp.TreeWalk.Eval

/-!
# Walking over checked forms obeys

The tree walker makes closures of checked bodies only, and so it never meets anything but checked forms.
In those it finds no special form malformed, and a `recur` reaches the loop or function that it stands in,
with as many values as that takes.

## Main definitions

* `Policy.walking`: what the walker may do.
* `Outcome.EndsIn`: what is known of an outcome that starts something over.

## Main statements

* `Walker.Obedient.step`, `Walker.Obedient.apply`: forms and calls, if their parts obey.
* `obedient_walker`: the walker obeys on accepted forms, and so do its calls.
-/

namespace TwinLisp

/-! ### What the walker may do -/

/-- Every body of the closure was checked, with its parameters as target. -/
def Closure.Accepted (c : Closure) : Prop :=
  ∀ o ∈ c.overloads, Acceptance.Body Form.Accepted
    (some ⟨o.params.length + o.rest.toList.length, o.rest.isSome⟩) true o.body

/-- The function is native, or a closure of checked bodies. -/
def Function.IsWalked (f : Function) : Prop :=
  match f.body with
  | .native _ => True
  | .interpreted c => c.Accepted
  | .compiled _ _ => False

/-- What the tree walker may do. All its failures are ordinary. -/
def Policy.walking (guarded : Symbol → Option Native) : Policy where
  admits := Function.IsWalked
  guarded
  mayFail := Cause.IsOrdinary
  native {f n} h := by
    unfold Function.IsWalked
    rw [h]
    trivial
  ordinary h := h

/-- The functions that the policy allows are those that the walker makes. -/
def Policy.Walks (P : Policy) : Prop := ∀ f, P.admits f ↔ f.IsWalked

theorem Policy.walks_walking (guarded : Symbol → Option Native) : (walking guarded).Walks :=
  fun _ => Iff.rfl

/-- If the outcome is to start something over, the number of new values satisfies `R`. -/
def Outcome.EndsIn (R : Nat → Prop) : Outcome → Prop
  | .value _ => True
  | .recur vs => R vs.length

/-- Evaluating a body may end in a `recur` with `n` values: its last form may. -/
def Form.BodyRecurs (fs : List Form) (n : Nat) : Prop := ∃ g, fs.getLast? = some g ∧ g.Recurs n

/-- The walker obeys on accepted forms, and so do its calls. -/
structure Walker.Obedient (P : Policy) (w : Walker) : Prop where
  eval {target : Option RecurTarget} {isLast : Bool} {f : Form} (h : f.Accepted target isLast)
    (p : WalkPlace) : Obeys P (w.eval p f) (Outcome.EndsIn f.Recurs)
  call (r : CallRequest) : Obeys P (w.call r) ⊤

variable {P : Policy} {w : Walker} {target : Option RecurTarget} {isLast : Bool}
variable {f : Form} {fs : List Form}

theorem Outcome.EndsIn.imp {R S : Nat → Prop} {o : Outcome} (h : o.EndsIn R) (hRS : ∀ n, R n → S n) :
    o.EndsIn S := by
  cases o with
  | value v => trivial
  | recur vs => exact hRS _ h

/-- A `recur` that ends an accepted body has a target. -/
theorem Acceptance.Body.recurs {n : Nat} (h : Acceptance.Body Form.Accepted target isLast fs)
    (hr : Form.BodyRecurs fs n) : isLast = true ∧ ∃ t, target = some t ∧ n = t.slots := by
  obtain ⟨g, hg, hr⟩ := hr
  exact Form.Accepted.recurs hr (h.getLast hg)

/-- Where something is left to do, no `recur` ends an accepted body. -/
theorem Acceptance.Body.not_recurs {n : Nat} (h : Acceptance.Body Form.Accepted target false fs) :
    ¬ Form.BodyRecurs fs n := fun hr => Bool.false_ne_true (h.recurs hr).1

theorem Closure.mem_of_select {c : Closure} {argc : Nat} {o : ClosureOverload}
    (h : c.select? argc = some o) : o ∈ c.overloads := by
  obtain ⟨i, -, hi⟩ := Option.bind_eq_some_iff.1 h
  exact List.mem_of_getElem? hi

/-! ### Several forms -/

namespace Walker.Obedient

variable (hw : w.Obedient P)
include hw

theorem value (h : f.Accepted target false) (p : WalkPlace) : Obeys P (w.value p f) ⊤ := by
  refine (hw.eval h p).bind fun o ho => ?_
  cases o with
  | value v => exact .done v
  | recur vs => exact absurd (Form.Accepted.recurs ho h).1 Bool.false_ne_true

theorem values (h : ∀ f ∈ fs, f.Accepted target false) (p : WalkPlace) :
    Obeys P (w.values p fs) fun vs => vs.length = fs.length := by
  induction fs generalizing p with
  | nil => exact .pure rfl
  | cons f fs ih =>
    obtain ⟨hf, hfs⟩ := List.forall_mem_cons.1 h
    refine (hw.value hf p).andThen fun v => (ih hfs _).bind fun vs hvs => .pure ?_
    rw [List.length_cons, List.length_cons, hvs]

theorem body (h : Acceptance.Body Form.Accepted target isLast fs) (p : WalkPlace) :
    Obeys P (w.body p fs) (Outcome.EndsIn (Form.BodyRecurs fs)) := by
  induction fs with
  | nil => exact .pure trivial
  | cons f fs ih =>
    cases fs with
    | nil => exact (hw.eval h p).imp fun o ho => ho.imp fun n hr => ⟨f, rfl, hr⟩
    | cons g gs =>
      refine (hw.value h.1 p).andThen fun _ => (ih h.2).imp fun o ho => ho.imp fun n hr => ?_
      obtain ⟨k, hk, hr⟩ := hr
      exact ⟨k, by rwa [List.getLast?_cons_cons], hr⟩

theorem callback : w.callback.Obedient P := fun _ _ => Obeys.callSite.andThen fun _ => hw.call _

/-! ### Calls -/

omit hw in
theorem bindAll {i : ScopeId} (hi : P.Binds i) (bindings : List (Symbol × Value)) :
    Obeys P (Walker.bindAll i bindings) ⊤ := by
  induction bindings with
  | nil => exact .done _
  | cons b bs ih => exact (Obeys.define hi b.1 b.2).andThen fun _ => ih

omit hw in
theorem restArgument (extra : List Value) : Obeys P (Walker.restArgument extra) ⊤ := by
  unfold Walker.restArgument
  split
  · exact .done _
  · exact .newList _

omit hw in
theorem openRun (self : Value) (c : Closure) (o : ClosureOverload) (isFirst : Bool) (vs : List Value) :
    Obeys P (Walker.openRun self c o isFirst vs) ⊤ := by
  refine (Obeys.openScope _).bind fun i hi => (bindAll hi _).andThen fun _ =>
    (bindAll hi _).andThen fun _ => ?_
  cases o.rest with
  | none => exact .done _
  | some rest =>
    have bound (v : Value) : Obeys P (do Eval.define i rest v; return i) ⊤ :=
      (Obeys.define hi rest v).andThen fun _ => .done _
    cases isFirst with
    | true => exact (restArgument _).andThen bound
    | false => exact bound _

theorem runOverload (self : Value) {c : Closure} (hc : c.Accepted) {o : ClosureOverload}
    (ho : o ∈ c.overloads) (held : List Node) (fuel : Nat) (isFirst : Bool) (vs : List Value) :
    Obeys P (w.runOverload self c o held fuel isFirst vs) ⊤ := by
  induction fuel generalizing isFirst vs with
  | zero => exact .outOfFuel
  | succ fuel ih =>
    refine (openRun self c o isFirst vs).andThen fun i => (Obeys.maybeCollect _).andThen fun _ => ?_
    refine (hw.body (hc o ho) _).andThen fun outcome => ?_
    cases outcome with
    | value v => exact .done v
    | recur vs => exact ih false vs

theorem applyClosure {c : Closure} (hc : c.Accepted) (r : CallRequest) :
    Obeys P (w.applyClosure c r) ⊤ := by
  unfold Walker.applyClosure
  split
  · refine (Obeys.calleeName _).andThen fun _ => ?_
    exact .failWith (P.ordinary (by trivial))
  · next o ho => exact .called (hw.runOverload r.callee hc (Closure.mem_of_select ho) _ _ _ _)

/-- Calls obey if forms and the calls in them do. -/
theorem apply (hP : P.Walks) {natives : NativeRunner} (hn : natives.Obedient P) (r : CallRequest) :
    Obeys P (w.apply natives r) ⊤ := by
  have data : Obeys P (Eval.attributed r.site r.locations (Library.callData r.callee r.args)) ⊤ :=
    .attributed (.callData _ _) _ _
  unfold Walker.apply
  dsimp only
  split
  · refine ((Obeys.callable r.callee).blaming r.site).bind fun g hg => ?_
    have walked := (hP g).1 hg
    unfold Function.IsWalked at walked
    split
    · exact .attributed (hn hw.callback _ _) _ _
    · next c body =>
      rw [body] at walked
      exact (hw.applyClosure walked r).blaming r.site
    · next body =>
      rw [body] at walked
      exact walked.elim
  all_goals first
    | exact data
    | exact (Obeys.failWith (P.ordinary (by trivial))).blaming r.site

/-! ### Special forms -/

theorem bindInOrder {bs : List Binding} (h : ∀ b ∈ bs, b.2.Accepted target false) {p : WalkPlace}
    (hp : P.Binds p.scope) : Obeys P (w.bindInOrder p bs) ⊤ := by
  induction bs with
  | nil => exact .done _
  | cons b bs ih =>
    obtain ⟨hb, hbs⟩ := List.forall_mem_cons.1 h
    refine (hw.value hb p).andThen fun v => (Obeys.intern b.1).andThen fun symbol => ?_
    exact (Obeys.define hp symbol v).andThen fun _ => (ih hbs).andThen fun _ => .done _

theorem evalLet {bindings : List Binding} (hb : Shape.bindings "let" f = .ok bindings)
    (hv : ∀ b ∈ bindings, b.2.Accepted target false)
    (body : Acceptance.Body Form.Accepted target isLast (Shape.bindingBody f)) (p : WalkPlace) :
    Obeys P (w.evalLet p f) (Outcome.EndsIn (Form.BodyRecurs (Shape.bindingBody f))) := by
  refine Obeys.known hb ?_
  refine (Obeys.openScope p.scope).bind fun i hi => ?_
  exact (hw.bindInOrder hv hi).andThen fun _ => hw.body body _

/-- A loop yields a value. -/
theorem runLoop {forms : List Form} (body : Acceptance.Body Form.Accepted target isLast forms)
    (p : WalkPlace) (names : List Symbol) (fuel : Nat) (i : ScopeId) :
    Obeys P (w.runLoop p names forms fuel i) (Outcome.EndsIn fun _ => False) := by
  induction fuel generalizing i with
  | zero => exact .outOfFuel
  | succ fuel ih =>
    refine (hw.body body _).andThen fun outcome => ?_
    cases outcome with
    | value v => exact .pure trivial
    | recur vs =>
      refine (Obeys.openScope p.scope).bind fun j hj => (bindAll hj _).andThen fun _ => ?_
      exact (Obeys.maybeCollect _).andThen fun _ => ih j

theorem evalLoop {bindings : List Binding} (hb : Shape.bindings "loop" f = .ok bindings)
    (hv : ∀ b ∈ bindings, b.2.Accepted target false) {inner : Option RecurTarget}
    (body : Acceptance.Body Form.Accepted inner isLast (Shape.bindingBody f)) (p : WalkPlace) :
    Obeys P (w.evalLoop p f) (Outcome.EndsIn fun _ => False) := by
  refine Obeys.known hb ?_
  refine (Obeys.openScope p.scope).bind fun i hi => ?_
  exact (hw.bindInOrder hv hi).andThen fun names => hw.runLoop body p names w.fuel i

omit hw in
theorem internOption (name : Option String) :
    Obeys P (name.mapM Eval.intern) fun symbol => symbol.isSome = name.isSome ∧
      symbol.toList.length = name.toList.length := by
  cases name with
  | none => exact .pure ⟨rfl, rfl⟩
  | some name =>
    rw [Option.mapM_some, map_eq_pure_bind]
    exact (Obeys.intern name).andThen fun _ => .pure ⟨rfl, rfl⟩

omit hw in
theorem closureOverloads {os : List OverloadShape} (h : Acceptance.Overloads Form.Accepted os) :
    Obeys P (Walker.closureOverloads os) fun overloads => ∀ o ∈ overloads,
      Acceptance.Body Form.Accepted
        (some ⟨o.params.length + o.rest.toList.length, o.rest.isSome⟩) true o.body := by
  refine (Obeys.mapM fun o ho => ?_).imp fun _ h => h.2
  refine (Obeys.mapM fun name _ => (Obeys.intern name).weaken).bind fun params hparams => ?_
  refine (internOption o.rest).bind fun rest hrest => .pure ?_
  have body := h o ho
  rw [OverloadShape.names, List.length_append] at body
  rwa [hparams.1, hrest.1, hrest.2]

omit hw in
/-- The closure that is made, in a session where it is on the heap. -/
theorem newClosure (hP : P.Walks) {β : Type} {R : β → Prop} {os : List OverloadShape}
    (h : Acceptance.Overloads Form.Accepted os) (p : WalkPlace) (name : Option Symbol) (isMacro : Bool)
    {k : Value → Eval β}
    (hk : ∀ {v s}, s.Sound P → (isMacro = true → ∀ n, s.Denotes v n) → Ends P s R (k v s)) :
    Obeys P (Walker.newClosure p name isMacro os >>= k) R := by
  unfold Walker.newClosure
  rw [bind_assoc]
  refine (closureOverloads h).bind fun overloads accepted => ?_
  dsimp only
  intro s hs
  have made : ∀ g, Object.function ⟨name, isMacro, .interpreted ⟨name, overloads, p.scope, p.cursor⟩⟩ =
      .function g → P.admits g := by
    rintro _ ⟨⟩
    exact (hP _).2 accepted
  refine (Obeys.new made s hs).bind hs fun v t hv _ ht _ => hk ht fun flagged n => ?_
  obtain ⟨a, rfl, ha⟩ := Obeys.new_eq hs.heap hv
  exact ⟨a, _, rfl, ha, .inl flagged⟩

omit hw in
theorem evalFunction (hP : P.Walks) {shape : FunctionShape} (hs : Shape.function f = .ok shape)
    (h : Acceptance.Overloads Form.Accepted shape.overloads) (p : WalkPlace) :
    Obeys P (Walker.evalFunction p f) ⊤ := by
  refine Obeys.known hs ((internOption shape.name).andThen fun name => ?_)
  have made := newClosure (k := Pure.pure) (R := ⊤) hP h p name false fun _ _ => .ok (.refl _) trivial
  rwa [bind_pure] at made

theorem evalDefinition {name : String} {value : Option Form}
    (hs : Shape.definition f = .ok (name, value)) (core : CoreOp.ofName? name = none)
    (hv : ∀ g, value = some g → g.Accepted target false) (p : WalkPlace) :
    Obeys P (w.evalDefinition p f) ⊤ := by
  have defined (v : Value) : Obeys P (do
      let symbol ← Eval.intern name
      Eval.defineGlobal symbol v
      return Value.symbol symbol) ⊤ :=
    (Obeys.intern name).bind fun symbol plain =>
      (Obeys.defineGlobal (plain core) v).andThen fun _ => .done _
  refine Obeys.known hs ?_
  cases value with
  | some g => exact (hw.value (hv g rfl) p).andThen defined
  | none => exact defined .nil

omit hw in
theorem evalMacroDefinition (hP : P.Walks) {name : String} {overloads : List OverloadShape}
    (hs : Shape.macroDefinition f = .ok (name, overloads))
    (h : Acceptance.Overloads Form.Accepted overloads) (p : WalkPlace) :
    Obeys P (Walker.evalMacroDefinition p f) ⊤ := by
  refine Obeys.known hs ((Obeys.intern name).andThen fun symbol => ?_)
  refine newClosure hP h p (some symbol) true fun {v s} hs denotes => ?_
  have change : Session.Change P s { s with scopes := s.scopes.define Scopes.root symbol v } :=
    .defineGlobal fun n _ => denotes rfl n
  exact .ok (.single change rfl rfl rfl rfl rfl rfl) trivial

/-- No `recur` leaves a `try`. -/
theorem handled {shape : AttemptShape} (body : ∀ g ∈ shape.body, g.Accepted none false)
    (handlers : ∀ h ∈ shape.handlers, ∀ g ∈ h.2, g.Accepted none false) (p : WalkPlace) :
    Obeys P (w.handled p shape.handlers.head? shape.body) (Outcome.EndsIn fun _ => False) := by
  have value {fs : List Form} (h : ∀ g ∈ fs, g.Accepted none false) (p : WalkPlace) :
      Obeys P (w.body p fs) (Outcome.EndsIn fun _ => False) :=
    (hw.body (.of_forall h) p).imp fun o ho => ho.imp fun _ => Acceptance.Body.not_recurs (.of_forall h)
  intro s hs
  unfold Walker.handled
  rw [Eval.bind_eq_of_ok (show (get : Eval Session) s = .ok s s from rfl)]
  refine ((value body p).attempt s hs).bind hs fun result t _ ht sound permitted => ?_
  cases permitted with
  | ok h => exact .ok (.refl t) h
  | @error f h =>
    cases hh : shape.handlers.head? with
    | none => exact Obeys.fail h t sound
    | some handler =>
      dsimp only
      split
      · exact Obeys.fail h t sound
      · refine (Obeys.caught f t sound).bind sound fun v u _ hu sound _ => ?_
        refine (Obeys.setCallDepth (hu.callDepth.trans ht.callDepth)).bind sound fun _ u _ _ sound _ => ?_
        refine Obeys.bind (Obeys.openScope p.scope) (fun i hi => ?_) u sound
        refine (Obeys.intern handler.1).andThen fun symbol => (Obeys.define hi symbol v).andThen fun _ => ?_
        exact value (handlers handler (List.mem_of_mem_head? hh)) _

theorem cleanedUp {cleanup : List Form} (h : ∀ g ∈ cleanup, g.Accepted none false) (p : WalkPlace)
    {x : Eval Outcome} {Q : Outcome → Prop} (hx : Obeys P x Q) : Obeys P (w.cleanedUp p cleanup x) Q := by
  refine hx.attempt.bind fun result permitted => ?_
  split
  · exact .ofExcept permitted
  · exact (hw.body (.of_forall h) _).andThen fun _ => .ofExcept permitted

theorem evalAttempt {shape : AttemptShape} (hs : Shape.attempt f = .ok shape)
    (body : ∀ g ∈ shape.body, g.Accepted none false)
    (handlers : ∀ h ∈ shape.handlers, ∀ g ∈ h.2, g.Accepted none false)
    (cleanup : ∀ forms, shape.cleanup = some forms → ∀ g ∈ forms, g.Accepted none false)
    (p : WalkPlace) : Obeys P (w.evalAttempt p f) (Outcome.EndsIn fun _ => False) := by
  have inner := hw.handled body handlers p
  refine Obeys.known hs ?_
  dsimp only
  split
  · next forms hc => exact hw.cleanedUp (cleanup forms hc) p inner
  · exact inner

/-- Special forms obey if the forms in them do. -/
theorem evalSpecial (hP : P.Walks) {kind : SpecialForm} (hk : f.special? = some kind)
    (hf : f.Accepted target isLast) (p : WalkPlace) :
    Obeys P (w.evalSpecial p kind f) (Outcome.EndsIn f.Recurs) := by
  have parts := hf.special hk
  have settled {x : Eval Outcome} (hx : Obeys P x (Outcome.EndsIn fun _ => False)) :
      Obeys P x (Outcome.EndsIn f.Recurs) := hx.imp fun o ho => ho.imp fun _ => False.elim
  cases kind with
  | quote => exact (Obeys.valueOfForm _).andThen fun _ => .pure trivial
  | conditional =>
    obtain ⟨test, yes, rest, hi, -, ht, branches⟩ := parts
    unfold Walker.evalSpecial
    dsimp only
    rw [hi]
    refine (hw.value ht p).andThen fun v => ?_
    split
    · next h hh =>
      have mem : h ∈ yes :: rest := by
        split at hh
        · exact List.mem_of_mem_head? hh
        · exact List.mem_of_getElem? hh
      exact (hw.eval (branches h mem) p).imp fun o ho => ho.imp fun _ => .branch hk hi mem
    · exact .pure trivial
  | sequence =>
    exact (hw.body parts p).imp fun o ho => ho.imp fun _ ⟨g, hg, hr⟩ => .last hk hg hr
  | letBinding =>
    obtain ⟨bindings, hb, hv, body⟩ := parts
    exact (hw.evalLet hb hv body p).imp fun o ho => ho.imp fun _ ⟨g, hg, hr⟩ => .body hk hg hr
  | loop =>
    obtain ⟨bindings, hb, hv, body⟩ := parts
    exact settled (hw.evalLoop hb hv body p)
  | recur =>
    refine (hw.values parts.2.2 p).bind fun vs hvs => .pure ?_
    change f.Recurs vs.length
    rw [hvs]
    exact .here hk
  | function =>
    obtain ⟨shape, hs, bodies⟩ := parts
    exact (evalFunction hP hs bodies p).andThen fun _ => .pure trivial
  | definition =>
    obtain ⟨name, value, hs, core, hv⟩ := parts
    exact (hw.evalDefinition hs core hv p).andThen fun _ => .pure trivial
  | macroDefinition =>
    obtain ⟨shape, hs, bodies⟩ := parts
    exact (evalMacroDefinition hP hs bodies p).andThen fun _ => .pure trivial
  | raise =>
    obtain ⟨value, hi, hv⟩ := parts
    unfold Walker.evalSpecial
    dsimp only
    rw [hi]
    exact (hw.value hv p).andThen fun v => .raiseAt _ _
  | attempt =>
    obtain ⟨shape, hs, body, handlers, cleanup⟩ := parts
    exact settled (hw.evalAttempt hs body handlers cleanup p)
  | template => exact parts.elim
  | handler => exact parts.elim
  | cleanup => exact parts.elim

/-! ### Forms -/

omit hw in
theorem resolve (p : WalkPlace) (name : String) : Obeys P (Walker.resolve p name) ⊤ := by
  refine Obeys.get fun s _ => ?_
  split
  · exact .done _
  · refine .fail ?_
    rw [Fault.cause_located]
    exact P.ordinary trivial

omit hw in
theorem evalLeaf (p : WalkPlace) (d : Leaf) : Obeys P (Walker.evalLeaf p d) ⊤ := by
  unfold Walker.evalLeaf
  split
  · exact resolve p _
  · exact Obeys.valueOfLeaf d

theorem evalCall {head : Form} {args : List Form} (h : ∀ g ∈ head :: args, g.Accepted target false)
    (p : WalkPlace) : Obeys P (w.evalCall p head args) ⊤ := by
  obtain ⟨hh, ha⟩ := List.forall_mem_cons.1 h
  exact (hw.value hh p).andThen fun _ => (hw.values ha _).andThen fun _ => hw.call _

/-- Forms obey if the forms in them do. -/
theorem step (hP : P.Walks) (hf : f.Accepted target isLast) (p : WalkPlace) :
    Obeys P (w.step p f) (Outcome.EndsIn f.Recurs) := by
  cases f with
  | leaf d l => exact (evalLeaf _ d).andThen fun _ => .pure trivial
  | group b items l =>
    have plain (hs : Form.special? (.group b items l) = none) (p : WalkPlace) :
        Obeys P (w.values p items) ⊤ := (hw.values (hf.items hs) p).weaken
    cases b with
    | vector => exact (plain rfl _).andThen fun _ => (Obeys.newVector _).andThen fun _ => .pure trivial
    | set => exact (plain rfl _).andThen fun _ => (Obeys.newSet _).andThen fun _ => .pure trivial
    | map => exact (plain rfl _).andThen fun _ => (Obeys.newMap _).andThen fun _ => .pure trivial
    | list => cases items with
      | nil => exact (Obeys.newList _).andThen fun _ => .pure trivial
      | cons head args =>
        unfold Walker.step
        dsimp only
        split
        · next kind hk =>
          rw [← Form.special?_list head args l] at hk
          exact hw.evalSpecial hP hk hf _
        · next hk =>
          rw [← Form.special?_list head args l] at hk
          exact (hw.evalCall (hf.items hk) _).andThen fun _ => .pure trivial

end Walker.Obedient

/-- **The walker obeys** on accepted forms, and so do its calls. -/
theorem obedient_walker (hP : P.Walks) {natives : NativeRunner} (hn : natives.Obedient P) (fuel : Nat) :
    (walker natives fuel).Obedient P := by
  induction fuel with
  | zero => exact ⟨fun _ _ => .outOfFuel, fun _ => .outOfFuel⟩
  | succ fuel ih => exact ⟨fun hf p => ih.step hP hf p, fun r => ih.apply hP hn r⟩

namespace Obeys

theorem treeWalkRun (hP : P.Walks) {natives : NativeRunner} (hn : natives.Obedient P) (fuel : Nat)
    (hf : f.Accepted none false) : Obeys P (TreeWalk.run natives fuel f) ⊤ :=
  (obedient_walker hP hn fuel).value hf _

theorem treeWalkCall (hP : P.Walks) {natives : NativeRunner} (hn : natives.Obedient P) (fuel : Nat) :
    (TreeWalk.call natives fuel).Obedient P := (obedient_walker hP hn fuel).callback

end Obeys

end TwinLisp
