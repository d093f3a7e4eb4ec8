import TwinLisp.Proofs.Conduct.Keeping
import TwinLisp.Proofs.Correspondence.Host
import TwinLisp.Proofs.Engine.Reachable
import TwinLisp.Proofs.Heap.Handles
import TwinLisp.Proofs.Transparency.Vigilance
import TwinLisp.Proofs.Transparency.Operations

/-!
# What hosts ask of an engine

A host may ask an engine for a few things. It has to hand in values that it still holds: ones whose objects
are there and whose names are in the table. The functions that it registers do the same in sessions that
correspond.

An engine that is asked for nothing else is *intact*: compared with itself, its session corresponds to
itself. So nothing on its heap leads to anything that is not there, and it stays so.

## Main definitions

* `HostRequest`: what hosts ask for, and `HostRequest.Genuine`: when they may.
* `HostFunction.Honest`: what is asked of their functions.
* `Engine.Serves`, `Engine.Later` and `Engine.Hosted`: what comes of an engine, and the engines that come about.
* `Engine.Intact`: an engine that has lost nothing that it may still need.

## Main statements

* `HostRequest.agree`: requests are served alike by evaluators that do the same.
* `Engine.Serves.intact`: engines stay intact.
* `Engine.Hosted.intact`: every engine of a host is intact.
-/

namespace TwinLisp

/-! ### Values that hosts hold -/

/-- The value can be used: its name is in the table, or the object that it refers to is there. -/
def Session.Holds (s : Session) : Value → Prop
  | .symbol x => s.symbols.Has x
  | .keyword x => s.symbols.Has x
  | .ref k a => ∃ o, s.heap.get? a = some o ∧ o.kind = k
  | _ => True

namespace HostType

/-- All values of the language in a host value satisfy `P`. -/
def All (P : Value → Prop) : (t : HostType) → t.Carrier → Prop
  | .value, (v : Value) => P v
  | .option t, (x : Option t.Carrier) => ∀ y ∈ x, t.All P y
  | .list t, (xs : List t.Carrier) => ∀ x ∈ xs, t.All P x
  | .dictionary t, (d : Dictionary t.Carrier) => ∀ e ∈ d.entries, t.All P e.2
  | _, _ => True

variable {P : Value → Prop} {w : World}

/-- A host value corresponds to itself if the values of the language in it do. -/
theorem All.match {t : HostType} {x : t.Carrier} (h : t.All P x) (hP : ∀ v, P v → v.Match w v) :
    t.Match w x x := by
  induction t with
  | value => exact hP x h
  | option t ih =>
    cases x with
    | none => exact .none
    | some y => exact .some (ih (h y rfl))
  | list t ih => exact List.forall₂_same.2 fun y hy => ih (h y hy)
  | dictionary t ih => exact List.forall₂_same.2 fun e he => ⟨rfl, ih (h e he)⟩
  | _ => rfl

/-- In a session that is compared with itself, host values correspond to themselves. -/
theorem Match.eq (self : w.isSelf) {t : HostType} {x y : t.Carrier} (h : t.Match w x y) : x = y := by
  induction t with
  | value => exact Value.Match.eq h self
  | option t ih =>
    cases h with
    | none => rfl
    | some h => rw [ih h]
  | list t ih => exact eq_of_forall₂_self h fun _ _ _ h => ih h
  | dictionary t ih =>
    exact Dictionary.ext (eq_of_forall₂_self h fun _ _ _ h => Prod.ext h.1 (ih h.2))
  | _ => exact h

end HostType

/-! ### Requests -/

/-- What a host asks of an engine. -/
inductive HostRequest : Type → Type where
  /-- Set up a session in which nothing has happened, with the macros of a text. -/
  | start (prelude : String) : HostRequest Unit
  /-- Evaluate a form, a text or the text of a file. -/
  | evaluate (f : Form) : HostRequest Value
  | evaluateText (source : String) : HostRequest Value
  | evaluateFile (path : String) (contents : Except String String) : HostRequest Value
  /-- Call a function. -/
  | apply (callee : Value) (args : List Value) : HostRequest Value
  | applyNamed (name : String) (args : List Value) : HostRequest Value
  /-- Turn a value of the language into one of the host. -/
  | convert (t : HostType) (v : Value) : HostRequest t.Carrier
  /-- Bind a name to a value of the host. -/
  | bind (name : String) (t : HostType) (x : t.Carrier) : HostRequest Unit
  | pin (v : Value) : HostRequest Nat
  | unpin (n : Nat) : HostRequest (Option Value)
  | collectGarbage : HostRequest Nat

namespace HostRequest

variable {α : Type}

/-- What an evaluator does about a request. -/
def run (ev : Evaluator) : HostRequest α → Eval α
  | .start prelude => ev.start prelude
  | .evaluate f => ev.evaluate f
  | .evaluateText source => ev.evaluateText source
  | .evaluateFile path contents => ev.evaluateFile path contents
  | .apply callee args => ev.apply callee args
  | .applyNamed name args => ev.applyNamed name args
  | .convert t v => t.ofValue v
  | .bind name t x => Eval.bind name t x
  | .pin v => Eval.pin v
  | .unpin n => Eval.unpin n
  | .collectGarbage => Eval.collectGarbage

/-- What is done about a request by certain means. -/
def runBy (m : Means) : HostRequest α → Eval α
  | .start prelude => m.start prelude
  | .evaluate f => m.evaluate f
  | .evaluateText source => m.evaluateText source
  | .evaluateFile path contents => m.evaluateFile path contents
  | .apply callee args => m.apply callee args
  | .applyNamed name args => m.applyNamed name args
  | .convert t v => t.ofValue v
  | .bind name t x => Eval.bind name t x
  | .pin v => Eval.pin v
  | .unpin n => Eval.unpin n
  | .collectGarbage => Eval.collectGarbage

/-- An evaluator does everything by its means. -/
theorem run_eq (ev : Evaluator) (r : HostRequest α) : r.run ev = r.runBy ev.means := by
  cases r with
  | start prelude => exact ev.start_eq prelude
  | evaluate f => exact congrFun ev.evaluate_eq f
  | evaluateText source => exact ev.evaluateText_eq source
  | evaluateFile path contents => exact ev.evaluateFile_eq path contents
  | _ => rfl

/-- Hosts ask for nothing but what an engine offers. -/
theorem offers (e : Engine) (fuel : Nat) (r : HostRequest α) :
    e.Offers (fun _ => True) (r.run (e.evaluator fuel)) := by
  cases r with
  | start prelude => exact .start (fun _ => trivial) fuel prelude
  | evaluate f => exact .evaluate fuel f
  | evaluateText source => exact .evaluateText fuel source
  | evaluateFile path contents => exact .evaluateFile fuel path contents
  | apply callee args => exact .apply fuel callee args
  | applyNamed name args => exact .applyNamed fuel name args
  | convert t v => exact .convert t v
  | bind name t x => exact .bind trivial t x
  | pin v => exact .pin v
  | unpin n => exact .unpin n
  | collectGarbage => exact .collectGarbage

/-- The host holds the values that it hands in, and no form of its own mentions an object. -/
def Genuine (s : Session) : HostRequest α → Prop
  | .evaluate f => f.IsPlain
  | .apply callee args => s.Holds callee ∧ ∀ v ∈ args, s.Holds v
  | .applyNamed _ args => ∀ v ∈ args, s.Holds v
  | .convert _ v => s.Holds v
  | .bind _ t x => t.All s.Holds x
  | .pin v => s.Holds v
  | _ => True

/-- How the results of a request are related. -/
def Related : HostRequest α → Related α α
  | .start _ => Done
  | .evaluate _ => Value.Match
  | .evaluateText _ => Value.Match
  | .evaluateFile _ _ => Value.Match
  | .apply _ _ => Value.Match
  | .applyNamed _ _ => Value.Match
  | .convert t _ => fun w => t.Match w
  | .bind _ _ _ => Done
  | .pin _ => Same
  | .unpin _ => Optional Value.Match
  | .collectGarbage => Same

/-- In a session that is compared with itself, results that are related are the same. -/
theorem Related.eq {w : World} (self : w.isSelf) {r : HostRequest α} {a b : α} (h : r.Related w a b) :
    a = b := by
  cases r with
  | convert t v => exact HostType.Match.eq self h
  | pin v => exact h
  | collectGarbage => exact h
  | unpin n =>
    cases h with
    | none => rfl
    | some hv => rw [hv.eq self]
  | start => rfl
  | bind name t x => rfl
  | _ => exact Value.Match.eq h self

end HostRequest

/-! ### Requests are served alike -/

variable {e : Terms} {w : World} {s t : Session}

namespace Session.Match

variable (hm : s.Match (.transparent e) w s) (self : w.isSelf)
include hm self

/-- Whatever the host holds corresponds to itself. -/
theorem holds {v : Value} (hv : s.Holds v) : v.Match w v := by
  have named {x : Symbol} (hx : s.symbols.Has x) : w.sym x x := by
    have here : s.symbols.names[x.index]? = some s.symbols.names[x.index] := Array.getElem?_eq_getElem hx
    exact (hm.symbols x x).2 ⟨_, here, here⟩
  cases v with
  | symbol x => exact .symbol (named hv)
  | keyword x => exact .keyword (named hv)
  | ref k a =>
    obtain ⟨o, ho, rfl⟩ := hv
    exact .ref o.kind (hm.heap.whole self ho)
  | _ => constructor

theorem holds_all {vs : List Value} (hv : ∀ v ∈ vs, s.Holds v) : Value.MatchAll w vs vs :=
  List.forall₂_same.2 fun v hm' => hm.holds self (hv v hm')

end Session.Match

/-- **Requests are served alike**, in a session that is compared with itself, by means that do the same. -/
theorem HostRequest.agree {α : Type} {oldest : Nat} {m m' : Means}
    (h : ∀ oldest, Means.Match { e with oldest } m m') (hm : s.Match (.transparent { e with oldest }) w s)
    (self : w.isSelf) (closed : s.Closed) (free : s.inhibited = 0) {r : HostRequest α}
    (genuine : r.Genuine s) :
    Agree (.transparent { e with oldest }) nothing w s r.Related (r.runBy m s) (r.runBy m' s) := by
  cases r with
  | start prelude => exact Means.Match.start h prelude hm closed
  | evaluate f => exact Means.Match.evaluate h hm closed genuine
  | evaluateText source => exact Means.Match.evaluateText h source hm closed
  | evaluateFile path contents => exact Means.Match.evaluateFile h path contents hm closed
  | apply callee args =>
    exact (h oldest).apply hm (hm.holds self genuine.1) (hm.holds_all self genuine.2)
  | applyNamed name args => exact (h oldest).applyNamed name hm (hm.holds_all self genuine)
  | convert t v => exact (Sim.ofValue t (hm.holds self genuine)).agree hm
  | bind name t x => exact (Sim.bindHost name t (genuine.match fun _ => hm.holds self)).agree hm
  | pin v => exact (Sim.pin (hm.holds self genuine)).agree hm
  | unpin n => exact (Sim.unpin n).agree hm
  | collectGarbage => exact Agree.collectGarbage hm self free

/-- No failure that ends a session is a loss. -/
theorem Fault.isLoss_of_isFatal {f : Fault} (h : f.isFatal = true) : f.cause.isLoss = false := by
  obtain ⟨cause, payload, location⟩ := f
  cases cause with
  | defect d => cases h
  | _ => rfl

namespace Agree

variable {S : Setting} {K : Node → Prop} {α : Type} {R : Related α α} {x : Eval α}

/-- Where a computation agrees with itself and returns without ending its session, it leaves a session that
corresponds to itself. -/
theorem returns (h : Agree S K w s R (x s) (x s)) (hS : ¬ S.mayEndRight) (self : w.isSelf)
    (ht : x.Returns s t) (alive : t.terminated = false) :
    ∃ w', Preserves K w s w' t ∧ t.Match S w' t := by
  obtain ⟨a, hx⟩ | ⟨f, hx⟩ := ht
  · rw [hx] at h
    cases h with
    | ok hF hm _ => exact ⟨_, hF, hm⟩
  · rw [hx] at h
    cases h with
    | fault hF hm _ => exact ⟨_, hF, hm⟩
    | fatal _ ended =>
      rw [(ended self).1] at alive
      cases alive
    | fatalRight may _ => exact absurd may hS

/-- It loses nothing. -/
theorem isLoss_eq_false {y : Eval α} (h : Agree S K w s R (x s) (y s)) (hS : ¬ S.mayEndRight) {f : Fault}
    (hx : x s = .error (.fault f) t) : f.cause.isLoss = false := by
  rw [hx] at h
  generalize y s = r at h
  cases h with
  | fault _ _ hf => exact hf.noLoss
  | fatal fatal _ => exact Fault.isLoss_of_isFatal fatal
  | fatalRight may _ => exact absurd may hS

end Agree

/-! ### Engines of hosts -/

/-- The terms on which a session is compared with itself. -/
def Terms.own (since : Heap) : Terms := ⟨True, False, 0, since⟩

/-- A function of the host is orderly, and it uses values only in the ways that a session offers. -/
structure HostFunction.Honest (b : Backend) (h : HostFunction) : Prop where
  tidy : h.Tidy (b.policy unguarded)
  faithful (oldest : Nat) (since : Heap) : h.Faithful (.transparent { Terms.own since with oldest })

namespace Engine

/-- What a host can make of an engine whose session has not ended. -/
inductive Serves (e : Engine) : Engine → Prop where
  | asked {α : Type} {r : HostRequest α} {fuel : Nat} {t : Session} (genuine : r.Genuine e.session)
    (returns : (r.run (e.evaluator fuel)).Returns e.session t) (alive : t.terminated = false) :
    Serves e { e with session := t }
  | registered {h : HostFunction} {e' : Engine} (honest : h.Honest e.backend)
    (registered : e.register h = .ok e') : Serves e e'
  | refused {h : HostFunction} {t : Session}
    (returns : (Eval.defineNative h.name (.host e.hosts.size)).Returns e.session t)
    (alive : t.terminated = false) : Serves e { e with session := t }
  | takeOutput : Serves e e.takeOutput.2

/-- Making an engine is the first thing that is asked of it. -/
theorem Serves.create {backend : Backend} {limits : Limits} {fuel : Nat} {prelude : String} {e : Engine}
    (h : Engine.create backend limits fuel prelude = .ok e) (alive : e.session.terminated = false) :
    Serves ⟨backend, #[], .fresh limits⟩ e := by
  obtain ⟨u, t, started, rfl⟩ := create_eq h
  exact .asked (r := .start prelude) trivial (.inl ⟨u, started⟩) alive

theorem Serves.evaluate {e e' : Engine} {fuel : Nat} {source : String} {v : Value}
    (h : e.evaluate fuel source = (.ok v, e')) (alive : e'.session.terminated = false) : e.Serves e' := by
  obtain ⟨ran, same⟩ := perform_ok h
  rw [same]
  exact .asked (r := .evaluateText source) trivial (.inl ⟨v, ran⟩) alive

/-- What has come of an engine some time later. -/
def Later : Engine → Engine → Prop := Relation.ReflTransGen Serves

/-- The engines that hosts bring about who hand in what they hold. -/
def Hosted (e : Engine) : Prop := ∃ limits, Later ⟨e.backend, #[], .fresh limits⟩ e

/-- All host functions are honest, no top-level form is open, and the session leads to nothing that is not
there. Since `since`, no handle has come to stand for anything else. -/
structure Intact (since : Heap) (e : Engine) : Prop where
  hosts : ∀ h ∈ e.hosts, h.Honest e.backend
  closed : e.session.Closed
  free : e.session.inhibited = 0
  whole : ∃ w : World, w.isSelf ∧ e.session.Match (.transparent (.own since)) w e.session

variable {e e' : Engine} {since : Heap}

theorem intact_fresh (b : Backend) (limits : Limits) :
    Intact (.empty none) ⟨b, #[], .fresh limits⟩ where
  hosts := by simp
  closed := ⟨rfl, rfl⟩
  free := rfl
  whole := ⟨.fresh True, trivial, Session.match_fresh (fun _ => rfl) fun h => absurd trivial h⟩

namespace Intact

variable (h : e.Intact since)
include h

/-- An intact engine is intact as of now. -/
theorem now : e.Intact e.session.heap where
  hosts := h.hosts
  closed := h.closed
  free := h.free
  whole := by
    obtain ⟨w, self, hm⟩ := h.whole
    exact ⟨w, self, hm.sinceNow⟩

/-- The native functions of the engine do the same in sessions that correspond. -/
theorem natives (oldest : Nat) (since : Heap) :
    NativeRunner.Match (.transparent { Terms.own since with oldest }) (Eval.runNative e.hosts)
      (Eval.runNative e.hosts) :=
  NativeRunner.Match.itself (fun f hf => (h.hosts f hf).faithful oldest since) trivial trivial

/-- The evaluators of the engine do the same as themselves. -/
theorem evaluator (fuel oldest : Nat) (since : Heap) :
    Means.Match { Terms.own since with oldest } (e.evaluator fuel).means (e.evaluator fuel).means :=
  Evaluator.means_match (h.natives oldest since) e.backend fuel

/-- Vigilance makes no difference to them. -/
theorem vigilant (lost : Stop) (fuel oldest : Nat) (since : Heap) :
    Means.Match { Terms.own since with oldest } ((e.evaluator fuel).vigilant lost)
      (e.evaluator fuel).means :=
  Evaluator.vigilant_match lost (h.natives oldest) e.backend fuel

/-- After a computation that agrees with itself, the engine is intact. -/
theorem after {α : Type} {R : Related α α} {x : Eval α} {t : Session}
    (agree : ∀ {w : World}, w.isSelf → e.session.Match (.transparent (.own since)) w e.session →
      Agree (.transparent (.own since)) nothing w e.session R (x e.session) (x e.session))
    (returns : x.Returns e.session t) (alive : t.terminated = false) :
    Intact since { e with session := t } := by
  obtain ⟨w, self, hm⟩ := h.whole
  obtain ⟨w', hF, hm'⟩ := (agree self hm).returns id self returns alive
  exact ⟨h.hosts, h.closed.preserved hF, hF.inhibited.trans h.free, w', hF.isSelf.2 self, hm'⟩

end Intact

/-- **Engines stay intact.** -/
theorem Serves.intact (serves : e.Serves e') (h : e.Intact since) : e'.Intact since := by
  have defines {f : HostFunction} {t : Session}
      (returns : (Eval.defineNative f.name (.host e.hosts.size)).Returns e.session t)
      (alive : t.terminated = false) : Intact since { e with session := t } :=
    h.after (fun _ hm => (Sim.defineNative f.name (.host e.hosts.size)).agree hm) returns alive
  cases serves with
  | @asked α r fuel t genuine returns alive =>
    rw [r.run_eq] at returns
    refine h.after (R := r.Related) (fun self hm => ?_) returns alive
    exact r.agree (fun oldest => h.evaluator fuel oldest since) hm self h.closed h.free genuine
  | @registered f e' honest registered =>
    obtain ⟨u, t, hr, rfl⟩ := register_eq registered
    -- The name is defined in a session that has room for its function, and so has not ended.
    have alive : t.terminated = false := by
      obtain ⟨w, self, hm⟩ := h.whole
      have agree := (Sim.defineNative f.name (.host e.hosts.size)).agree (K := nothing) hm
      rw [hr] at agree
      cases agree with
      | ok _ hm _ => exact hm.aliveLeft
    have intact := defines (.inl ⟨u, hr⟩) alive
    refine ⟨fun g hg => ?_, intact.closed, intact.free, intact.whole⟩
    rcases Array.mem_push.1 hg with hg | rfl
    · exact h.hosts g hg
    · exact honest
  | refused returns alive => exact defines returns alive
  | takeOutput =>
    obtain ⟨w, self, hm⟩ := h.whole
    refine ⟨h.hosts, ⟨h.closed.nesting, h.closed.floor⟩, h.free, w, self, ?_⟩
    exact { hm with eq := fun _ => rfl, output := rfl }

theorem Later.intact (later : e.Later e') (h : e.Intact since) : e'.Intact since := by
  induction later with
  | refl => exact h
  | tail _ serves ih => exact serves.intact ih

/-- **Every engine of a host is intact.** -/
theorem Hosted.intact (h : e.Hosted) : e.Intact e.session.heap := by
  obtain ⟨limits, later⟩ := h
  exact (later.intact (intact_fresh e.backend limits)).now

/-- What comes of an engine is what hosts can make of it. -/
theorem Later.reaches (later : e.Later e') : e'.backend = e.backend ∧
    e.Reaches (fun _ => True) (·.Tidy (e.backend.policy unguarded)) e' := by
  induction later with
  | refl => exact ⟨rfl, .refl⟩
  | tail _ serves ih =>
    obtain ⟨same, before⟩ := ih
    cases serves with
    | @asked α r fuel t _ returns _ => exact ⟨same, .ran before (r.offers _ fuel) returns⟩
    | @registered f e'' honest registered =>
      have tidy := honest.tidy
      rw [same] at tidy
      obtain ⟨u, t, -, rfl⟩ := register_eq registered
      exact ⟨same, .register before trivial tidy registered⟩
    | refused returns _ => exact ⟨same, .refused before trivial returns⟩
    | takeOutput => exact ⟨same, .takeOutput before⟩

theorem Hosted.reachable (h : e.Hosted) : e.Reachable := by
  obtain ⟨limits, later⟩ := h
  exact ⟨limits, later.reaches.2⟩

end Engine

end TwinLisp
