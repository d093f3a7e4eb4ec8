import TwinLisp.Proofs.Conduct.Keeping
import TwinLisp.Proofs.Engine.Reachable
import TwinLisp.Proofs.Fuel.Evaluation

/-!
# Values are immutable

Whatever is evaluated, and whatever step of an evaluation is looked at, all objects that are still there
afterwards are what they were, atoms apart. An atom is written by the three functions that are there for it
and by nothing else: an evaluation that must not apply them to the atom leaves the atom alone, and it is the
same evaluation unless it gets to such an application.

So a value is written in the same way as before as long as it is kept and no atom in it is written. Native
functions keep everything. Those that call no function and write no atom leave the texts of all values as
they are.

## Main definitions

* `Evaluator.Does`: what evaluators do to a session, from whole texts down to single steps.
* `Evaluator.sparing`: the evaluator that does not return from writing an atom.
* `Engine.Sealed`: an engine whose host functions keep to every policy.

## Main statements

* `Engine.Sealed.immutable`.
-/

namespace TwinLisp

/-- The session after a computation, however that ended. -/
def Eval.after {α : Type} (x : Eval α) (s : Session) : Session :=
  match x s with
  | .ok _ t => t
  | .error _ t => t

theorem Ends.strays {P : Policy} {α : Type} {Q : α → Prop} {x : Eval α} {s : Session}
    (h : Ends P s Q (x s)) : s.Strays P (x.after s) := by
  unfold Eval.after
  generalize x s = r at h ⊢
  cases r with
  | ok a t => exact .of_evolves h.1.evolves
  | error e t =>
    cases e with
    | fault f => exact .of_evolves h.1.evolves
    | outOfFuel => exact h

/-! ### Stricter policies -/

/-- The same policy, where only atoms in `W` may be written, and nothing may be collected if `quiet` holds. -/
def Policy.confined (P : Policy) (W : Address → Prop) (quiet : Prop) : Policy :=
  { P with writes := W, quiet }

section

variable {P : Policy} (W : Address → Prop) (quiet : Prop)

theorem Session.Sound.confined {s : Session} (hs : s.Sound P) (hq : quiet → 0 < s.inhibited) :
    s.Sound (P.confined W quiet) :=
  ⟨hs.heap, hs.functions, hs.names, hs.root, hq, hs.scopes⟩

theorem Backend.Allowed.confined {b : Backend} (h : b.Allowed P) : b.Allowed (P.confined W quiet) := by
  cases b with
  | treeWalk => exact h
  | machine => exact ⟨⟨h.1.admits, h.1.missing, h.1.restores⟩, h.2⟩

end

/-! ### What evaluators do -/

namespace Evaluator

/-- What evaluators do to a session: whole evaluations, where no call is in progress, and the steps that they
are made of. -/
inductive Does (s : Session) : {α : Type} → (Evaluator → Eval α) → Prop where
  | start (h : s.Settled) (prelude : String) : Does s fun e => e.start prelude
  | evaluate (h : s.Settled) (f : Form) : Does s (·.evaluate f)
  | evaluateText (h : s.Settled) (source : String) : Does s (·.evaluateText source)
  | evaluateFile (h : s.Settled) (path : String) (contents : Except String String) :
    Does s (·.evaluateFile path contents)
  | apply (h : s.Settled) (callee : Value) (args : List Value) : Does s (·.apply callee args)
  | applyNamed (h : s.Settled) (name : String) (args : List Value) : Does s (·.applyNamed name args)
  | run {f : Form} (hf : f.Accepted none false) : Does s (·.run f)
  | call (callee : Value) (args : List Value) : Does s (·.call callee args)
  | native (n : Native) (args : List Value) : Does s fun e => e.natives e.call n args
  | expand (f : Form) : Does s fun e => Eval.expand e.call f
  | expandHead (f : Form) : Does s fun e => Eval.expandHead e.call f
  | expandOnce (f : Form) : Does s fun e => Eval.expandOnce e.call f
  | quote (f : Form) : Does s fun _ => Eval.valueOfForm f
  | unquote (v : Value) : Does s fun _ => Eval.formOfValue v
  | literal {o : Object} (h : ∀ f, o ≠ .function f) : Does s fun _ => Eval.new o
  | define {i : ScopeId} (hi : i ≠ Scopes.root) (name : Symbol) (v : Value) :
    Does s fun _ => Eval.define i name v
  | defineGlobal (name : Symbol) (v : Value) : Does s fun _ => Eval.defineGlobal name v
  | bind (name : String) (t : HostType) (x : t.Carrier) : Does s fun _ => Eval.bind name t x
  | convert (t : HostType) (v : Value) : Does s fun _ => t.ofValue v
  | pin (v : Value) : Does s fun _ => Eval.pin v
  | unpin (pin : Nat) : Does s fun _ => Eval.unpin pin
  | maybeCollect (roots : Unit → List Node) : Does s fun _ => Eval.maybeCollect roots
  | collectGarbage : Does s fun _ => Eval.collectGarbage

namespace Does

variable {P : Policy} {α : Type} {x : Evaluator → Eval α} {s : Session}

/-- **All of this ends well.** -/
theorem ends (h : Does s x) {e : Evaluator} (hb : e.backend.Allowed P) (hn : e.natives.Obedient P)
    (hf : ∀ c, P.mayFail c) (hg : ∀ symbol, P.guarded symbol = none) (hq : ¬ P.quiet) (hz : P.frozen = 0)
    (hs : s.Sound P) :
    Ends P s ⊤ (x e s) := by
  have call := Obeys.evaluatorCall hb hn
  have frees : P.Frees fun _ => True := fun _ _ => .inr hg
  have expands : P.Expands := ⟨fun _ _ _ => hf _⟩
  cases h with
  | start settled prelude =>
    unfold Evaluator.start
    refine .bind (Q := ⊤) hs (Obeys.defineBuiltins frees (fun _ => trivial) _ hs) fun _ t _ ht sound _ => ?_
    refine .bind (Q := ⊤) sound ?_ fun _ u _ _ _ _ => .ok (.refl u) trivial
    exact ends_evaluateText hb hn hf prelude sound (settled.leads ht)
  | evaluate settled f => exact ends_evaluate hb hn hf f hs settled
  | evaluateText settled source => exact ends_evaluateText hb hn hf source hs settled
  | evaluateFile settled path contents => exact ends_evaluateFile hb hn hf path contents hs settled
  | apply settled callee args => exact ends_apply hb hn callee args hs settled
  | applyNamed settled name args => exact ends_applyNamed hb hn hf name args hs settled
  | run accepted => exact Obeys.evaluatorRun hb hn accepted _ hs
  | call callee args => exact call callee args s hs
  | native n args => exact hn call n args s hs
  | expand f => exact (Obeys.expand call f s hs).imp fun _ _ => trivial
  | expandHead f => exact Obeys.expandHead call f s hs
  | expandOnce f => exact Obeys.expandOnce call f s hs
  | quote f => exact Obeys.valueOfForm f s hs
  | unquote v => exact Obeys.formOfValue v s hs
  | literal data => exact Obeys.new (fun f hf => absurd hf (data f)) s hs
  | define hi name v => exact Obeys.define ⟨hi, hz ▸ Nat.zero_le _⟩ name v s hs
  | defineGlobal name v => exact Obeys.defineGlobal (hg name) v s hs
  | bind name t x => exact Obeys.bindHost frees trivial t x s hs
  | convert t v => exact Obeys.ofValue t v s hs
  | pin v => exact Obeys.pin v s hs
  | unpin pin => exact Obeys.unpin pin s hs
  | maybeCollect roots => exact Obeys.maybeCollect roots s hs
  | collectGarbage => exact Obeys.collectGarbage hq s hs

theorem further (h : Does s x) {e e' : Evaluator} (he : e.Further e') : (x e).Further (x e') := by
  cases h with
  | start _ prelude => exact he.start prelude
  | evaluate _ f => exact he.evaluate f
  | evaluateText _ source => exact he.evaluateText source
  | evaluateFile _ path contents => exact he.evaluateFile path contents
  | apply _ callee args => exact he.apply callee args
  | applyNamed _ name args => exact he.applyNamed name args
  | run _ => exact he.run _
  | call callee args => exact he.call callee args
  | native n args => exact he.natives he.call n args
  | expand f => exact .expand he.call f
  | expandHead f => exact .expandHead he.call f
  | expandOnce f => exact .expandOnce he.call f
  | _ => exact .refl _

end Does

end Evaluator

/-! ### Sparing an atom -/

/-- The same native functions, except that none returns from writing the atom at `a`. -/
def NativeRunner.sparing (natives : NativeRunner) (a : Address) : NativeRunner := fun call n args =>
  if n.written? args = some a then throw .outOfFuel else natives call n args

/-- The same evaluator, except that it does not return from writing the atom at `a`. -/
def Evaluator.sparing (e : Evaluator) (a : Address) : Evaluator := { e with natives := e.natives.sparing a }

theorem NativeRunner.Further.sparing {natives : NativeRunner} (h : natives.Further natives) (a : Address) :
    (natives.sparing a).Further natives := by
  intro c d hcd n args
  unfold NativeRunner.sparing
  split
  · exact .outOfFuel _
  · exact h hcd n args

theorem Evaluator.further_sparing {e : Evaluator} (h : e.natives.Further e.natives) (a : Address) :
    (e.sparing a).Further e := ⟨rfl, h.sparing a, Nat.le_refl _⟩

/-- What spares an atom obeys where that atom may not be written. -/
theorem Obeys.runNative_sparing {P : Policy} {hosts : HostTable} (hh : ∀ h ∈ hosts, h.Tidy P) {a : Address}
    (hw : ∀ b, b ≠ a → P.writes b) : ((Eval.runNative hosts).sparing a).Obedient P := by
  intro call hc n args
  unfold NativeRunner.sparing
  split
  · exact Obeys.outOfFuel
  · next other => exact Obeys.runNativeCall hh hc fun b hb => hw b fun e => other (e ▸ hb)

/-! ### Native functions -/

/-- Whether a built-in function calls functions. -/
def Builtin.calls : Builtin → Bool
  | .apply | .map | .filter | .reduce | .swap | .macroexpandOne | .macroexpand => true
  | _ => false

theorem Library.run_eq_of_not_calls {b : Builtin} (h : b.calls = false) (c d : Caller) (args : List Value) :
    run c b args = run d b args := by
  cases b with
  | apply | map | filter | reduce | swap | macroexpandOne | macroexpand => cases h
  | _ => rfl

/-- **Where collection is forbidden, nothing is lost.** -/
theorem Eval.after_withoutCollection {P : Policy} {W : Address → Prop} {α : Type} {Q : α → Prop}
    {x : Eval α} {s : Session} (hx : Obeys (P.confined W True) x Q) (hs : s.Sound P) :
    s.Keeps W ((Eval.withoutCollection x).after s) ∧ s.Retains ((Eval.withoutCollection x).after s) := by
  have given : Session.Change P s { s with inhibited := s.inhibited + 1 } :=
    .inhibit (s.inhibited + 1) fun _ => Nat.succ_pos _
  have sound := (hs.change given).confined W True fun _ => Nat.succ_pos _
  have strays := (hx _ sound).strays
  have back : (x.after { s with inhibited := s.inhibited + 1 }).Coincides
      ((Eval.withoutCollection x).after s) := by
    have same : Eval.withoutCollection x s = Eval.always (fun s => { s with inhibited := s.inhibited - 1 }) x
        { s with inhibited := s.inhibited + 1 } := rfl
    unfold Eval.after
    rw [same]
    unfold Eval.always
    cases x { s with inhibited := s.inhibited + 1 } <;> exact ⟨rfl, rfl, rfl⟩
  have strays := strays.coincides back
  have counted : s.Coincides { s with inhibited := s.inhibited + 1 } := ⟨rfl, rfl, rfl⟩
  exact ⟨(Session.Keeps.of_coincides counted).trans (strays.keeps sound), strays.retains sound trivial⟩

/-! ### Engines -/

namespace Engine

/-- The engines that hosts can bring about, if they register functions only that keep to every policy: that
write no atom, collect nothing and make no functions but native ones. -/
def Sealed (e : Engine) : Prop :=
  ∃ limits, Reaches (fun _ => True) (fun h => ∀ P, h.Tidy P) ⟨e.backend, #[], .fresh limits⟩ e

variable {e : Engine}

/-- All host functions were registered. -/
theorem Reaches.hosts {names : String → Prop} {tidy : HostFunction → Prop} {e₀ : Engine}
    (h : e₀.Reaches names tidy e) (start : ∀ f ∈ e₀.hosts, tidy f) :
    ∀ f ∈ e.hosts, tidy f := by
  induction h with
  | refl => exact start
  | @register e e' h _ _ ht registered ih =>
    unfold Engine.register at registered
    split at registered
    · next r performed =>
      cases registered
      intro g hg
      unfold Engine.perform at performed
      split at performed <;> cases performed
      rcases Array.mem_push.1 hg with hg | rfl
      · exact ih g hg
      · exact ht
    · cases registered
  | ran _ _ _ ih => exact ih
  | refused _ _ _ ih => exact ih
  | takeOutput _ ih => exact ih

namespace Sealed

variable (h : e.Sealed)
include h

theorem tidy (P : Policy) : ∀ f ∈ e.hosts, f.Tidy P := by
  obtain ⟨limits, reaches⟩ := h
  exact fun f hf => reaches.hosts (by simp) f hf P

theorem orderly : e.Orderly unguarded := by
  obtain ⟨limits, reaches⟩ := h
  refine (reaches.orderly ⟨by simp, ?_, Session.atRest_fresh limits⟩ (frees_unguarded _ _)
    fun _ tidy => tidy _).1
  exact Session.sound_fresh (fun _ => by rw [Backend.guarded_policy]; rfl)
    (e.backend.not_quiet_policy _) (e.backend.frozen_policy _) limits

end Sealed

variable {s : Session} (hs : s.Sound (e.backend.policy unguarded)) (fuel : Nat)
include hs

/-- Everything keeps what an evaluator keeps that may only write the atoms in `W`. -/
theorem keeps_of_does {W : Address → Prop} {α : Type} {x : Evaluator → Eval α} (does : Evaluator.Does s x)
    {natives : NativeRunner}
    (hn : natives.Obedient ((e.backend.policy unguarded).confined W False)) :
    s.Keeps W ((x ⟨e.backend, natives, fuel⟩).after s) := by
  have sound := hs.confined W False False.elim
  have allowed := (e.backend.allowed_policy unguarded).confined W False
  refine (does.ends (e := ⟨e.backend, natives, fuel⟩) allowed hn (e.backend.mayFail_policy _) ?_ id
    (e.backend.frozen_policy _) sound).strays.keeps sound
  intro symbol
  change (e.backend.policy unguarded).guarded symbol = none
  rw [Backend.guarded_policy]
  rfl

/-- Native functions lose nothing. -/
theorem Sealed.retains_native (h : e.Sealed) (n : Native) (args : List Value) :
    s.Retains ((Eval.runNative e.hosts (e.evaluator fuel).call n args).after s) := by
  have allowed := (e.backend.allowed_policy unguarded).confined (fun _ => True) True
  have tidy := h.tidy ((e.backend.policy unguarded).confined (fun _ => True) True)
  have natives : (Eval.runNative e.hosts).Obedient _ := Obeys.runNative tidy fun _ => trivial
  have call := Obeys.evaluatorCall (e := e.evaluator fuel) allowed natives
  exact (Eval.after_withoutCollection (Obeys.nativeBody tidy call fun _ _ => trivial) hs).2

/-- A built-in function that calls nothing and writes no atom loses nothing and changes nothing. -/
theorem keeps_builtin {b : Builtin} (calls : b.calls = false) {args : List Value}
    (writes : b.written? args = none) (call : Caller) :
    s.Keeps (fun _ => False) ((Eval.runNative e.hosts call (.builtin b) args).after s) ∧
      s.Retains ((Eval.runNative e.hosts call (.builtin b) args).after s) := by
  rw [Eval.runNative_eq]
  refine Eval.after_withoutCollection (Q := ⊤) ?_ hs
  have body : Eval.nativeBody e.hosts call (.builtin b) args =
      Library.run (fun _ _ => throw .outOfFuel) b args := Library.run_eq_of_not_calls calls call _ args
  rw [body]
  exact Obeys.run (fun _ _ => Obeys.outOfFuel) b args fun a ha => by simp [writes] at ha

omit hs

/-- **Values are immutable.** Let a session be sound, as those of the engine are.

Whatever an evaluator does in it, up to its end or up to any point where it is broken off, leaves all objects
that are still there as they were, atoms apart, and gives no address a new meaning. If it must not apply
`reset!`, `swap!` or `compare-and-set!` to the atom at `a`, it leaves that atom alone, too, and apart from
being broken off there it is the same. So texts stay what they are: of whatever is kept, if the atoms in it
hold what they held.

Native functions lose nothing. Those that neither call functions nor write an atom leave all texts alone. -/
theorem Sealed.immutable (h : e.Sealed) (fuel : Nat) :
    e.session.Sound (e.backend.policy unguarded) ∧ e.session.Settled ∧
    ∀ s : Session, s.Sound (e.backend.policy unguarded) →
      (∀ {α : Type} {x : Evaluator → Eval α}, Evaluator.Does s x →
        s.Keeps (fun _ => True) ((x (e.evaluator fuel)).after s) ∧
        s.KeepsTexts ((x (e.evaluator fuel)).after s) ∧
        ∀ a, s.Keeps (· ≠ a) ((x ((e.evaluator fuel).sparing a)).after s) ∧
          (x ((e.evaluator fuel).sparing a)).Further (x (e.evaluator fuel))) ∧
      (∀ n args, s.Retains ((Eval.runNative e.hosts (e.evaluator fuel).call n args).after s)) ∧
      ∀ b args, b.calls = false → b.written? args = none → ∀ v readably, s.Whole v →
        ((Eval.runNative e.hosts (e.evaluator fuel).call (.builtin b) args).after s).text readably v =
          s.text readably v := by
  refine ⟨h.orderly.sound, h.orderly.atRest.settled, fun s hs => ⟨fun does => ⟨?_, ?_, fun a => ⟨?_, ?_⟩⟩,
    h.retains_native hs fuel, fun b args calls writes v readably whole => ?_⟩⟩
  · exact keeps_of_does hs fuel does (Obeys.runNative (h.tidy _) fun _ => trivial)
  · exact (keeps_of_does hs fuel does (Obeys.runNative (h.tidy _) fun _ => trivial)).texts
  · exact keeps_of_does hs fuel does (Obeys.runNative_sparing (h.tidy _) fun _ => id)
  · exact does.further (Evaluator.further_sparing (NativeRunner.further_runNative _) a)
  · obtain ⟨keeps, retains⟩ := keeps_builtin hs calls writes (e.evaluator fuel).call
    refine keeps.texts v readably whole (fun k a shown => ?_) fun k a w shown hw => ?_
    · obtain ⟨o, ho, -⟩ := whole _ shown
      exact retains a (Option.isSome_of_eq_some ho)
    · obtain ⟨o, ho⟩ := Option.isSome_iff_exists.1 (retains a (Option.isSome_of_eq_some hw))
      rw [ho, (keeps.object hw ho).eq id]

/-- An engine in use. It goes on to read its atom through the object in the code of `f`. -/
theorem immutable_furnished : ∃ e, furnished .machine = .ok e ∧ e.Sealed ∧
    e.session.Sound (e.backend.policy unguarded) ∧
    (e.evaluateToText 60 "(f)").1.toOption = some "7" ∧
    (∀ source, e.session.Keeps (fun _ => True) (((e.evaluator 60).evaluateText source).after e.session)) ∧
    ∀ n args, e.session.Retains ((Eval.runNative e.hosts (e.evaluator 60).call n args).after e.session) := by
  have reads : ((furnished .machine).toOption.any fun e => (e.evaluateToText 60 "(f)").1.toOption == some "7") = true := by
    decide +kernel
  obtain ⟨e, made⟩ : ∃ e, furnished .machine = .ok e := by
    cases made : furnished .machine with
    | ok e => exact ⟨e, rfl⟩
    | error stop =>
      rw [made] at reads
      cases reads
  rw [made] at reads
  have isSealed : e.Sealed := by
    obtain ⟨e₀, e₁, v, created, registered, evaluated, backend⟩ := furnished_eq made
    have tidy (P : Policy) : IntegerModule.functions[4].Tidy P := IntegerModule.tidy _ (List.getElem_mem _)
    have begun : Reaches (fun _ => True) (fun h => ∀ P, h.Tidy P) ⟨.machine, #[], .fresh {}⟩ e₀ :=
      .create (fun _ => trivial) created
    exact ⟨{}, backend ▸ (begun.register trivial tidy registered).evaluate evaluated⟩
  obtain ⟨sound, settled, immutable⟩ := isSealed.immutable 60
  obtain ⟨keeps, retains, -⟩ := immutable _ sound
  exact ⟨e, made, isSealed, sound, eq_of_beq reads, fun source => (keeps (.evaluateText settled source)).1, retains⟩

end Engine

end TwinLisp
