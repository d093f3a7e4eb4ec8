import TwinLisp.Engine.Basic
import TwinLisp.Host.IntegerModule
import TwinLisp.Proofs.Conduct.Evaluation
import TwinLisp.Proofs.Conduct.Host

/-!
# What hosts can do with an engine

A host creates an engine, registers functions, and runs computations of a few kinds in its session, however
they end. Between them the session is at rest: no call, no top-level form and no native function is in
progress.

## Main definitions

* `Engine.Offers`: the computations that hosts run in the session of an engine.
* `Engine.Reaches` and `Engine.Reachable`: what hosts can make of an engine, and the engines that they can
  bring about.
* `Session.AtRest`: nothing is in progress.

## Main statements

* `Engine.Reachable.orderly`: every reachable engine keeps to its policy and is at rest.
* `Engine.Reachable.evaluate_restores`: what evaluation leaves as it was.
-/

namespace TwinLisp

/-! ### Policies of backends -/

/-- The same policy, where failures may have any cause. -/
def Policy.lenient (P : Policy) : Policy := P.failing (fun _ => True) fun _ => trivial

/-- What a backend may do to a session where some names are guarded. -/
def Backend.policy (guarded : Symbol → Option Native) : Backend → Policy
  | .treeWalk => (Policy.walking guarded).lenient
  | .machine => (Policy.running guarded False).lenient

/-- No name is guarded. -/
def unguarded : Symbol → Option Native := fun _ => none

namespace Backend

variable (b : Backend) (guarded : Symbol → Option Native)

theorem mayFail_policy (c : Cause) : (b.policy guarded).mayFail c := by
  cases b <;> trivial

theorem guarded_policy : (b.policy guarded).guarded = guarded := by
  cases b <;> rfl

theorem writes_policy (a : Address) : (b.policy guarded).writes a := by
  cases b <;> trivial

theorem not_quiet_policy : ¬ (b.policy guarded).quiet := by
  cases b <;> exact id

theorem frozen_policy : (b.policy guarded).frozen = 0 := by cases b <;> rfl

theorem allowed_policy : b.Allowed (b.policy guarded) := by
  cases b with
  | treeWalk => exact fun _ => Iff.rfl
  | machine => exact ⟨⟨fun _ => Iff.rfl, fun _ => trivial, Iff.rfl⟩, fun _ => trivial⟩

theorem restores_policy_treeWalk : (treeWalk.policy guarded).restores := trivial

end Backend

/-! ### Operations of hosts -/

/-- The computation returns, with a result or a fault, and leaves the session as `t`. -/
def Eval.Returns {α : Type} (x : Eval α) (s t : Session) : Prop :=
  (∃ a, x s = .ok a t) ∨ ∃ f, x s = .error (.fault f) t

namespace Engine

/-- The computations that hosts run in the session of an engine, if they bind some names only. -/
inductive Offers (names : String → Prop) (e : Engine) : {α : Type} → Eval α → Prop where
  | start (h : ∀ name, names name) (fuel : Nat) (prelude : String) :
    Offers names e ((e.evaluator fuel).start prelude)
  | evaluate (fuel : Nat) (f : Form) : Offers names e ((e.evaluator fuel).evaluate f)
  | evaluateText (fuel : Nat) (source : String) :
    Offers names e ((e.evaluator fuel).evaluateText source)
  | evaluateFile (fuel : Nat) (path : String) (contents : Except String String) :
    Offers names e ((e.evaluator fuel).evaluateFile path contents)
  | apply (fuel : Nat) (callee : Value) (args : List Value) :
    Offers names e ((e.evaluator fuel).apply callee args)
  | applyNamed (fuel : Nat) (name : String) (args : List Value) :
    Offers names e ((e.evaluator fuel).applyNamed name args)
  | convert (t : HostType) (v : Value) : Offers names e (t.ofValue v)
  | bind {name : String} (h : names name) (t : HostType) (x : t.Carrier) :
    Offers names e (Eval.bind name t x)
  | pin (v : Value) : Offers names e (Eval.pin v)
  | unpin (pin : Nat) : Offers names e (Eval.unpin pin)
  | collectGarbage : Offers names e Eval.collectGarbage

/-- What hosts can make of an engine, if they bind some names and register some functions only. -/
inductive Reaches (names : String → Prop) (tidy : HostFunction → Prop) (start : Engine) :
    Engine → Prop where
  | refl : Reaches names tidy start start
  | ran {e : Engine} {α : Type} {x : Eval α} {t : Session} (before : Reaches names tidy start e)
    (offers : e.Offers names x) (returns : x.Returns e.session t) :
    Reaches names tidy start { e with session := t }
  | register {e e' : Engine} {h : HostFunction} (before : Reaches names tidy start e)
    (hn : names h.name) (ht : tidy h) (registered : e.register h = .ok e') : Reaches names tidy start e'
  | refused {e : Engine} {h : HostFunction} {t : Session} (before : Reaches names tidy start e)
    (hn : names h.name) (returns : (Eval.defineNative h.name (.host e.hosts.size)).Returns e.session t) :
    Reaches names tidy start { e with session := t }
  | takeOutput {e : Engine} (before : Reaches names tidy start e) :
    Reaches names tidy start e.takeOutput.2

/-- The engines that hosts can bring about, if they register tidy functions only. -/
def Reachable (e : Engine) : Prop :=
  ∃ limits, Reaches (fun _ => True) (·.Tidy (e.backend.policy unguarded))
    ⟨e.backend, #[], .fresh limits⟩ e

/-- How an engine is made. -/
theorem create_eq {backend : Backend} {limits : Limits} {fuel : Nat} {e : Engine}
    {prelude : String} (h : Engine.create backend limits fuel prelude = .ok e) : ∃ u t,
      (Evaluator.mk backend (Eval.runNative #[]) fuel).start prelude (.fresh limits) = .ok u t ∧
        e = ⟨backend, #[], t⟩ := by
  unfold Engine.create Engine.perform at h
  dsimp only at h
  split at h
  · next r started =>
    split at started
    · next u t hr =>
      cases started
      cases h
      exact ⟨u, t, hr, rfl⟩
    · cases started
  · cases h

section

variable {names : String → Prop} {tidy : HostFunction → Prop} {e e' start : Engine}

/-- A host that registers a function defines its name. -/
theorem register_eq {h : HostFunction} (registered : e.register h = .ok e') : ∃ u t,
    Eval.defineNative h.name (.host e.hosts.size) e.session = .ok u t ∧
      e' = { e with hosts := e.hosts.push h, session := t } := by
  unfold Engine.register Engine.perform at registered
  split at registered
  · next r performed =>
    split at performed
    · next u t hr =>
      cases performed
      cases registered
      exact ⟨u, t, hr, rfl⟩
    · cases performed
  · cases registered

/-- Making an engine is the first thing that a host does. -/
theorem Reaches.create (all : ∀ name, names name) {backend : Backend} {limits : Limits} {fuel : Nat} {prelude : String}
    (h : Engine.create backend limits fuel prelude = .ok e) : Reaches names tidy ⟨backend, #[], .fresh limits⟩ e := by
  obtain ⟨u, t, started, rfl⟩ := create_eq h
  exact .ran .refl (.start all fuel prelude) (.inl ⟨u, started⟩)

/-- An engine that was made is reachable. -/
theorem Reachable.create {backend : Backend} {limits : Limits} {fuel : Nat} {prelude : String}
    (h : Engine.create backend limits fuel prelude = .ok e) : e.Reachable := by
  obtain ⟨u, t, started, rfl⟩ := create_eq h
  exact ⟨limits, .create (fun _ => trivial) h⟩

theorem perform_ok {α : Type} {x : Eval α} {a : α} (h : e.perform x = (.ok a, e')) :
    x e.session = .ok a e'.session ∧ e' = { e with session := e'.session } := by
  unfold perform at h
  split at h
  · next ran =>
    cases h
    exact ⟨ran, rfl⟩
  · cases h

theorem Reaches.evaluate (before : Reaches names tidy start e) {fuel : Nat} {source : String} {v : Value}
    (h : e.evaluate fuel source = (.ok v, e')) : Reaches names tidy start e' := by
  obtain ⟨ran, same⟩ := perform_ok h
  rw [same]
  exact .ran before (.evaluateText fuel source) (.inl ⟨v, ran⟩)

end

/-- An engine in use: there is a function of the host, an atom, a macro that puts the atom into code, and a function
with such code. -/
def furnished (backend : Backend) : Except Stop Engine := do
  let e ← create backend {} 60 "(def a (atom 7)) (defmacro held [] (list 'deref a))"
  let e ← e.register IntegerModule.functions[4]
  let (made, e) := e.evaluate 60 "(def f (fn [] (held)))"
  let _ ← made
  return e

/-- How the engine in use came about. -/
theorem furnished_eq {backend : Backend} {e : Engine} (h : furnished backend = .ok e) : ∃ e₀ e₁ v,
    create backend {} 60 "(def a (atom 7)) (defmacro held [] (list 'deref a))" = .ok e₀ ∧
      e₀.register IntegerModule.functions[4] = .ok e₁ ∧ e₁.evaluate 60 "(def f (fn [] (held)))" = (.ok v, e) ∧
      e.backend = backend := by
  unfold furnished at h
  cases made : create backend {} 60 "(def a (atom 7)) (defmacro held [] (list 'deref a))" with
  | error stop =>
    rw [made] at h
    cases h
  | ok e₀ =>
    rw [made] at h
    change (e₀.register IntegerModule.functions[4] >>= _) = _ at h
    cases registered : e₀.register IntegerModule.functions[4] with
    | error stop =>
      rw [registered] at h
      cases h
    | ok e₁ =>
      rw [registered] at h
      change ((e₁.evaluate 60 "(def f (fn [] (held)))").1 >>= _) = _ at h
      cases evaluated : (e₁.evaluate 60 "(def f (fn [] (held)))").1 with
      | error stop =>
        rw [evaluated] at h
        cases h
      | ok v =>
        rw [evaluated] at h
        cases h
        have evaluated : e₁.evaluate 60 "(def f (fn [] (held)))" = (.ok v, _) := Prod.ext evaluated rfl
        refine ⟨e₀, e₁, v, rfl, registered, evaluated, ?_⟩
        obtain ⟨u, t, -, rfl⟩ := create_eq made
        obtain ⟨u, t, -, rfl⟩ := register_eq registered
        exact congrArg Engine.backend (perform_ok evaluated).2

end Engine

/-! ### Between operations -/

/-- Nothing is in progress. -/
structure Session.AtRest (s : Session) : Prop where
  callDepth : s.callDepth = 0
  nesting : s.nesting = 0
  inhibited : s.inhibited = 0
  attribution : s.attribution = .initial
  floor : s.heap.floor = none

namespace Session

variable {P : Policy} {s t : Session}

theorem AtRest.settled (h : s.AtRest) : s.Settled := ⟨h.callDepth, fun _ => h.floor⟩

theorem AtRest.leads (h : s.AtRest) (ht : s.Leads P t) : t.AtRest where
  callDepth := ht.callDepth.trans h.callDepth
  nesting := ht.nesting.trans h.nesting
  inhibited := ht.inhibited.trans h.inhibited
  attribution := ht.attribution.trans h.attribution
  floor := ht.floor.trans h.floor

theorem atRest_fresh (limits : Limits) : (fresh limits).AtRest := ⟨rfl, rfl, rfl, rfl, rfl⟩

end Session

/-- Functions of the host that are tidy, and a session that keeps to the policy and is at rest. -/
structure Engine.Orderly (guarded : Symbol → Option Native) (e : Engine) : Prop where
  hosts : ∀ h ∈ e.hosts, h.Tidy (e.backend.policy guarded)
  sound : e.session.Sound (e.backend.policy guarded)
  atRest : e.session.AtRest

/-- None of the names may be guarded. -/
def Policy.Frees (P : Policy) (names : String → Prop) : Prop :=
  ∀ name, names name → CoreOp.ofName? name = none ∨ ∀ symbol, P.guarded symbol = none

namespace Obeys

variable {P : Policy} {names : String → Prop} {name : String} (hP : P.Frees names)

include hP in
theorem internFree (h : names name) : Obeys P (Eval.intern name) fun symbol => P.guarded symbol = none :=
  (intern name).imp fun symbol plain => (hP name h).elim plain fun free => free symbol

include hP in
theorem defineNative (h : names name) (n : Native) : Obeys P (Eval.defineNative name n) ⊤ := by
  refine (internFree hP h).bind fun symbol free => (new fun f e => ?_).andThen fun v =>
    defineGlobal free v
  cases e
  exact P.native rfl

include hP in
theorem defineBuiltins (h : ∀ name, names name) : Obeys P Eval.defineBuiltins ⊤ :=
  forM fun b _ => defineNative hP (h b.name) (.builtin b)

include hP in
theorem bindHost (h : names name) (t : HostType) (x : t.Carrier) : Obeys P (Eval.bind name t x) ⊤ :=
  (toValue t x).andThen fun v => (internFree hP h).bind fun _ free => defineGlobal free v

theorem pin (v : Value) : Obeys P (Eval.pin v) ⊤ :=
  changeGet (fun _ _ => .single (.pins _ _) rfl rfl rfl rfl rfl rfl) fun _ _ => trivial

theorem unpin (pin : Nat) : Obeys P (Eval.unpin pin) ⊤ :=
  changeGet (fun s _ => .single (.pins _ s.nextPin) rfl rfl rfl rfl rfl rfl) fun _ _ => trivial

theorem collectGarbage (hq : ¬ P.quiet) : Obeys P Eval.collectGarbage ⊤ :=
  changeGet (fun _ _ => .single (.collect hq []) rfl rfl rfl rfl rfl rfl) fun _ _ => trivial

end Obeys

/-- Where a computation returns, it has made the changes that it may make. -/
theorem Ends.returns {P : Policy} {α : Type} {Q : α → Prop} {x : Eval α} {s t : Session}
    (h : Ends P s Q (x s)) (ht : x.Returns s t) : s.Leads P t := by
  obtain ⟨a, hx⟩ | ⟨f, hx⟩ := ht
  · rw [hx] at h
    exact h.1
  · rw [hx] at h
    exact h.1

namespace Engine

variable {names : String → Prop} {tidy : HostFunction → Prop} {guarded : Symbol → Option Native}
variable {e e₀ : Engine} {α : Type} {x : Eval α} {t : Session}

namespace Orderly

variable (h : e.Orderly guarded) (hn : (e.backend.policy guarded).Frees names)
include h

theorem natives : (Eval.runNative e.hosts).Obedient (e.backend.policy guarded) :=
  Obeys.runNative h.hosts (e.backend.writes_policy guarded)

include hn in
/-- **Whatever a host runs ends well.** -/
theorem ends (offers : e.Offers names x) : Ends (e.backend.policy guarded) e.session ⊤ (x e.session) := by
  have allowed := e.backend.allowed_policy guarded
  have causes := e.backend.mayFail_policy guarded
  have settled := h.atRest.settled
  cases offers with
  | start all fuel prelude =>
    unfold Evaluator.start
    refine .bind (Q := ⊤) h.sound (Obeys.defineBuiltins hn all _ h.sound) fun _ t _ ht sound _ => ?_
    refine .bind (Q := ⊤) sound ?_ fun _ u _ _ _ _ => .ok (.refl u) trivial
    exact Evaluator.ends_evaluateText allowed h.natives causes prelude sound (settled.leads ht)
  | evaluate fuel f => exact Evaluator.ends_evaluate allowed h.natives causes f h.sound settled
  | evaluateText fuel source =>
    exact Evaluator.ends_evaluateText allowed h.natives causes source h.sound settled
  | evaluateFile fuel path contents =>
    exact Evaluator.ends_evaluateFile allowed h.natives causes path contents h.sound settled
  | apply fuel callee args => exact Evaluator.ends_apply allowed h.natives callee args h.sound settled
  | applyNamed fuel name args =>
    exact Evaluator.ends_applyNamed allowed h.natives causes name args h.sound settled
  | convert t v => exact Obeys.ofValue t v _ h.sound
  | bind hb t x => exact Obeys.bindHost hn hb t x _ h.sound
  | pin v => exact Obeys.pin v _ h.sound
  | unpin pin => exact Obeys.unpin pin _ h.sound
  | collectGarbage => exact Obeys.collectGarbage (e.backend.not_quiet_policy guarded) _ h.sound

/-- The engine is in order again when its session has changed in permitted ways. -/
theorem leads (ht : e.session.Leads (e.backend.policy guarded) t) :
    Orderly guarded { e with session := t } :=
  ⟨h.hosts, ht.sound h.sound, h.atRest.leads ht⟩

include hn in
/-- Registering a function leaves the engine in order. -/
theorem register {e' : Engine} {f : HostFunction} (hf : names f.name)
    (tidy : f.Tidy (e.backend.policy guarded)) (registered : e.register f = .ok e') :
    e'.Orderly guarded ∧ e'.backend = e.backend ∧
      e.session.Leads (e.backend.policy guarded) e'.session := by
  have defined := Obeys.defineNative hn hf (.host e.hosts.size) e.session h.sound
  unfold Engine.register Engine.perform at registered
  split at registered
  · next r performed =>
    split at performed
    · next a t hr =>
      cases performed
      cases registered
      rw [hr] at defined
      obtain ⟨hosts, sound, atRest⟩ := h.leads defined.1
      refine ⟨⟨fun g hg => ?_, sound, atRest⟩, rfl, defined.1⟩
      rcases Array.mem_push.1 hg with hg | rfl
      · exact hosts g hg
      · exact tidy
    · cases performed
  · cases registered

end Orderly

/-- **What hosts make of an engine in order is in order**, and its session was changed in permitted ways. -/
theorem Reaches.orderly (h : e₀.Reaches names tidy e) (start : e₀.Orderly guarded)
    (hn : (e₀.backend.policy guarded).Frees names)
    (ht : ∀ f, tidy f → f.Tidy (e₀.backend.policy guarded)) :
    e.Orderly guarded ∧ e.backend = e₀.backend ∧
      Session.Evolves (e₀.backend.policy guarded) e₀.session e.session := by
  induction h with
  | refl => exact ⟨start, rfl, .refl⟩
  | ran _ offers returns ih =>
    obtain ⟨orderly, backend, evolves⟩ := ih
    rw [← backend] at hn evolves ⊢
    have leads := (orderly.ends hn offers).returns returns
    exact ⟨orderly.leads leads, rfl, evolves.trans leads.evolves⟩
  | register _ hf tidy registered ih =>
    obtain ⟨orderly, backend, evolves⟩ := ih
    rw [← backend] at hn ht evolves ⊢
    obtain ⟨orderly, same, leads⟩ := orderly.register hn hf (ht _ tidy) registered
    exact ⟨orderly, same, evolves.trans leads.evolves⟩
  | @refused e h t _ hf returns ih =>
    obtain ⟨orderly, backend, evolves⟩ := ih
    rw [← backend] at hn evolves ⊢
    have defined := Obeys.defineNative hn hf (.host e.hosts.size) e.session orderly.sound
    have leads := defined.returns returns
    exact ⟨orderly.leads leads, rfl, evolves.trans leads.evolves⟩
  | @takeOutput e _ ih =>
    obtain ⟨orderly, backend, evolves⟩ := ih
    rw [← backend] at evolves ⊢
    have leads : e.session.Leads (e.backend.policy guarded) { e.session with output := "" } :=
      .single (.write "") rfl rfl rfl rfl rfl rfl
    exact ⟨orderly.leads leads, rfl, evolves.trans leads.evolves⟩

theorem frees_unguarded (backend : Backend) (names : String → Prop) :
    (backend.policy unguarded).Frees names := fun _ _ => .inr fun symbol => by
  rw [backend.guarded_policy]
  rfl

/-- **Every reachable engine is in order.** -/
theorem Reachable.orderly (h : e.Reachable) : e.Orderly unguarded := by
  obtain ⟨limits, reaches⟩ := h
  refine (reaches.orderly ⟨by simp, ?_, Session.atRest_fresh limits⟩ (frees_unguarded _ _) fun _ => id).1
  exact Session.sound_fresh (fun _ => by rw [Backend.guarded_policy]; rfl) (e.backend.not_quiet_policy _)
    (e.backend.frozen_policy _) limits

end Engine

/-! ### What evaluation leaves behind -/

/-- The counters, the table of locations to blame and the time during which code stays are as they were. So are
the operands of machines, if no machine was run. -/
structure Session.Restored (b : Backend) (s t : Session) : Prop where
  callDepth : t.callDepth = s.callDepth
  inhibited : t.inhibited = s.inhibited
  nesting : t.nesting = s.nesting
  attribution : t.attribution = s.attribution
  floor : t.heap.floor = s.heap.floor
  operands : b = .treeWalk → t.operands = s.operands

/-- However the computation returns, all of this is back in place. -/
def Eval.Restores {α : Type} (x : Eval α) (b : Backend) (s : Session) : Prop :=
  ∀ t, x.Returns s t → s.Restored b t

theorem Ends.restores {b : Backend} {α : Type} {Q : α → Prop} {x : Eval α} {s : Session}
    (h : Ends (b.policy unguarded) s Q (x s)) : x.Restores b s := fun _ ht =>
  have leads := h.returns ht
  { callDepth := leads.callDepth
    inhibited := leads.inhibited
    nesting := leads.nesting
    attribution := leads.attribution
    floor := leads.floor
    operands := fun walked => by
      subst walked
      exact leads.operands (Backend.restores_policy_treeWalk _) }

/-- However a machine ends that was started with the frame, it has left its own calls and nothing else. If
it finished, it has removed all its handlers. -/
def Frame.Restores (natives : NativeRunner) (back : Caller) (s : Session) (frame : Frame)
    (slots : Array Value) : Prop :=
  ∀ t m, (Machine.start s.operands frame slots).Steps natives back s t m →
    (∀ m' v u, m.step natives back t = .ok (.finished m' v) u →
      m.callers = [] ∧ m.handlers = [] ∧ m.held = [] ∧ u.callDepth + frame.counts = s.callDepth) ∧
    ∀ failed f u, m.step natives back t = .ok (.failed failed f) u →
      ∀ g v, failed.unwind f u = .error (.fault g) v → v.callDepth + frame.counts = s.callDepth

/-- **Evaluation leaves everything as it was**, however it returns, except that a machine may take off operands
of those that wait for it. Between the operations of a host, no call is in progress. What native code calls
leaves everything as it was, too, wherever it is called from; and the machine that it may be run on takes back
its own frames, handlers and held failures and no others. -/
theorem Engine.Reachable.evaluate_restores {e : Engine} (h : e.Reachable) (fuel : Nat) :
    e.session.AtRest ∧ (∀ f, ((e.evaluator fuel).evaluate f).Restores e.backend e.session) ∧
      ∀ s, s.Sound (e.backend.policy unguarded) →
        (∀ callee args, ((e.evaluator fuel).call callee args).Restores e.backend s) ∧
        (e.backend = .machine → ∀ (frame : Frame) (slots : Array Value),
          frame.Starts (e.backend.policy unguarded) False slots →
          frame.bottom = s.operands.size → frame.counts ≤ s.callDepth →
          frame.Restores (Eval.runNative e.hosts) (Machine.caller (Eval.runNative e.hosts) fuel) s slots) := by
  have orderly := h.orderly
  have allowed := e.backend.allowed_policy unguarded
  have free := Engine.frees_unguarded e.backend fun _ => True
  refine ⟨orderly.atRest, fun f => (orderly.ends free (.evaluate fuel f)).restores, fun s hs => ⟨?_, ?_⟩⟩
  · intro callee args
    exact (Obeys.evaluatorCall (e := e.evaluator fuel) allowed orderly.natives callee args s hs).restores
  · intro machine frame slots starts bottom counted _ m steps
    rw [machine] at allowed
    obtain ⟨runs, -⟩ := allowed
    rw [← machine] at runs
    have natives : (Eval.runNative e.hosts).Obedient (e.backend.policy unguarded) := orderly.natives
    have back := Obeys.machineCaller runs natives fuel
    obtain ⟨_, _, running⟩ := Machine.running_start starts bottom
      (Nat.sub_add_cancel counted).symm
    refine ⟨fun m' v u finished => ?_, fun failed f u hf g v hg => ?_⟩
    · obtain ⟨callers, handlers, held, depth, -⟩ :=
        running.finished runs natives back hs False.elim steps finished
      exact ⟨callers, handlers, held, by rw [depth, Nat.sub_add_cancel counted]⟩
    · rw [running.failed runs natives back hs False.elim steps hf hg, Nat.sub_add_cancel counted]

end TwinLisp
