import TwinLisp.Proofs.Bytecode.Compile
import TwinLisp.Proofs.Conduct.Walker

/-!
# What a check is good for

A program that passes the check can be compiled and walked over without a special form being found
malformed. Every form in it stands at a place with a target for `recur`: the loop or the function that is
nearest around it, unless a `try` is nearer. Evaluating the form may end in a `recur` only if nothing is left
to do at that place, and then with as many values as the target takes.

## Main definitions

* `Form.Part` and `Form.Contains`: where the forms in a program stand.
* `Form.Yields`: what evaluating a form at such a place comes to.

## Main statements

* `Form.Contains.accepted`: what stands in a checked program is accepted at its place.
* `check_safe`: a checked program is safe to compile and to walk over.
-/

namespace TwinLisp

/-! ### Where forms stand -/

/-- The forms of a body. The last of them is the last thing to do if the body is. -/
inductive Form.InBody (isLast : Bool) (fs : List Form) : Bool → Form → Prop where
  | last {g : Form} (h : fs.getLast? = some g) : InBody isLast fs isLast g
  | before {g : Form} (h : g ∈ fs.dropLast) : InBody isLast fs false g

/-- The forms that `f` is made of and that are evaluated as parts of it, where `f` stands at a place with the
given target, as the last thing to do or not. Each part has a target of its own. -/
inductive Form.Part (target : Option RecurTarget) (isLast : Bool) (f : Form) :
    Option RecurTarget → Bool → Form → Prop where
  | item {g : Form} (h : f.special? = none) (hg : g ∈ f.items) : Part target isLast f target false g
  | test {g : Form} {branches : List Form} (h : f.special? = some .conditional)
    (hi : f.items.drop 1 = g :: branches) : Part target isLast f target false g
  | branch {test g : Form} {branches : List Form} (h : f.special? = some .conditional)
    (hi : f.items.drop 1 = test :: branches) (hg : g ∈ branches) : Part target isLast f target isLast g
  | sequence {l : Bool} {g : Form} (h : f.special? = some .sequence)
    (hg : InBody isLast (f.items.drop 1) l g) : Part target isLast f target l g
  | letValue {bindings : List Binding} {b : Binding} (h : f.special? = some .letBinding)
    (hs : Shape.bindings "let" f = .ok bindings) (hb : b ∈ bindings) :
    Part target isLast f target false b.2
  | letBody {l : Bool} {g : Form} (h : f.special? = some .letBinding)
    (hg : InBody isLast (Shape.bindingBody f) l g) : Part target isLast f target l g
  | loopValue {bindings : List Binding} {b : Binding} (h : f.special? = some .loop)
    (hs : Shape.bindings "loop" f = .ok bindings) (hb : b ∈ bindings) :
    Part target isLast f target false b.2
  /-- A `recur` in the body of a loop reaches the loop. -/
  | loopBody {bindings : List Binding} {l : Bool} {g : Form} (h : f.special? = some .loop)
    (hs : Shape.bindings "loop" f = .ok bindings) (hg : InBody true (Shape.bindingBody f) l g) :
    Part target isLast f (some ⟨bindings.length, false⟩) l g
  /-- A `recur` in the body of a function reaches the function. -/
  | functionBody {shape : FunctionShape} {o : OverloadShape} {l : Bool} {g : Form}
    (h : f.special? = some .function) (hs : Shape.function f = .ok shape) (ho : o ∈ shape.overloads)
    (hg : InBody true o.body l g) :
    Part target isLast f (some ⟨o.names.length, o.rest.isSome⟩) l g
  | macroBody {name : String} {overloads : List OverloadShape} {o : OverloadShape} {l : Bool} {g : Form}
    (h : f.special? = some .macroDefinition) (hs : Shape.macroDefinition f = .ok (name, overloads))
    (ho : o ∈ overloads) (hg : InBody true o.body l g) :
    Part target isLast f (some ⟨o.names.length, o.rest.isSome⟩) l g
  | defined {name : String} {g : Form} (h : f.special? = some .definition)
    (hs : Shape.definition f = .ok (name, some g)) : Part target isLast f target false g
  | recurValue {g : Form} (h : f.special? = some .recur) (hg : g ∈ f.items.drop 1) :
    Part target isLast f target false g
  | raised {g : Form} (h : f.special? = some .raise) (hi : f.items.drop 1 = [g]) :
    Part target isLast f target false g
  /-- No `recur` leads out of any part of a `try`. -/
  | attempted {shape : AttemptShape} {g : Form} (h : f.special? = some .attempt)
    (hs : Shape.attempt f = .ok shape)
    (hg : g ∈ shape.body ∨ (∃ h ∈ shape.handlers, g ∈ h.2) ∨ ∃ gs, shape.cleanup = some gs ∧ g ∈ gs) :
    Part target isLast f none false g

/-- The forms in a program, with the places where they stand. -/
inductive Form.Contains (f : Form) : Option RecurTarget → Bool → Form → Prop where
  | self : Contains f none false f
  | part {target target' : Option RecurTarget} {isLast isLast' : Bool} {g g' : Form}
    (around : Contains f target isLast g) (h : g.Part target isLast target' isLast' g') :
    Contains f target' isLast' g'

variable {target target' : Option RecurTarget} {isLast isLast' : Bool} {f g : Form}

theorem Acceptance.Body.part {ok : Acceptance} {fs : List Form} (h : ok.Body target isLast fs)
    (hg : Form.InBody isLast fs isLast' g) : ok target isLast' g := by
  cases hg with
  | last hg => exact h.getLast hg
  | before hg =>
    induction fs with
    | nil => cases hg
    | cons first rest ih =>
      cases rest with
      | nil => cases hg
      | cons second rest =>
        rcases List.mem_cons.1 hg with rfl | hg
        · exact h.1
        · exact ih h.2 hg

/-- **The parts of an accepted form are accepted at their places.** -/
theorem Form.Part.accepted (h : f.Part target isLast target' isLast' g)
    (hf : f.Accepted target isLast) : g.Accepted target' isLast' := by
  cases h with
  | item h hg => exact hf.items h g hg
  | test h hi =>
    obtain ⟨test, yes, rest, hi', -, ht, -⟩ := hf.special h
    rw [hi] at hi'
    cases hi'
    exact ht
  | branch h hi hg =>
    obtain ⟨test, yes, rest, hi', -, -, hb⟩ := hf.special h
    rw [hi] at hi'
    cases hi'
    exact hb g hg
  | sequence h hg => exact Acceptance.Body.part (hf.special h) hg
  | letValue h hs hb =>
    obtain ⟨bindings, hs', hv, -⟩ := hf.special h
    rw [hs] at hs'
    cases hs'
    exact hv _ hb
  | letBody h hg =>
    obtain ⟨bindings, -, -, body⟩ := hf.special h
    exact body.part hg
  | loopValue h hs hb =>
    obtain ⟨bindings, hs', hv, -⟩ := hf.special h
    rw [hs] at hs'
    cases hs'
    exact hv _ hb
  | loopBody h hs hg =>
    obtain ⟨bindings, hs', -, body⟩ := hf.special h
    rw [hs] at hs'
    cases hs'
    exact body.part hg
  | functionBody h hs ho hg =>
    obtain ⟨shape, hs', bodies⟩ := hf.special h
    rw [hs] at hs'
    cases hs'
    exact (bodies _ ho).part hg
  | macroBody h hs ho hg =>
    obtain ⟨shape, hs', bodies⟩ := hf.special h
    rw [hs] at hs'
    cases hs'
    exact (bodies _ ho).part hg
  | defined h hs =>
    obtain ⟨name, value, hs', -, hv⟩ := hf.special h
    rw [hs] at hs'
    cases hs'
    exact hv g rfl
  | recurValue h hg => exact (hf.special h).2.2 g hg
  | raised h hi =>
    obtain ⟨value, hi', hv⟩ := hf.special h
    rw [hi] at hi'
    cases hi'
    exact hv
  | attempted h hs hg =>
    obtain ⟨shape, hs', body, handlers, cleanup⟩ := hf.special h
    rw [hs] at hs'
    cases hs'
    rcases hg with hg | ⟨clause, hc, hg⟩ | ⟨gs, hc, hg⟩
    · exact body g hg
    · exact handlers clause hc g hg
    · exact cleanup gs hc g hg

/-- **What stands in an accepted program is accepted at its place.** -/
theorem Form.Contains.accepted (h : f.Contains target isLast g) (hf : f.Accepted none false) :
    g.Accepted target isLast := by
  induction h with
  | self => exact hf
  | part _ h ih => exact h.accepted ih

/-! ### What forms come to -/

/-- What evaluating a form comes to that stands at a place with the given target, as the last thing to do or
not. A `recur` that it ends in stands in it outside of any loop, function or `try`; it is the last thing to
do, and gives as many values as the target takes. No failure is due to the form or to the evaluator. -/
def Form.Yields (target : Option RecurTarget) (isLast : Bool) (f : Form) :
    EStateM.Result Stop Session Outcome → Prop
  | .ok (.value _) _ => True
  | .ok (.recur vs) _ =>
    f.Recurs vs.length ∧ isLast = true ∧ ∃ t, target = some t ∧ vs.length = t.slots
  | .error (.fault e) _ => e.cause.IsOrdinary
  | .error .outOfFuel _ => True

theorem Form.Yields.of_ends {P : Policy} {s : Session} {r : EStateM.Result Stop Session Outcome}
    (hf : f.Accepted target isLast) (hP : ∀ {c}, P.mayFail c → c.IsOrdinary)
    (h : Ends P s (Outcome.EndsIn f.Recurs) r) : f.Yields target isLast r := by
  cases r with
  | ok o t =>
    cases o with
    | value v => trivial
    | recur vs => exact ⟨h.2, hf.recurs h.2⟩
  | error e t =>
    cases e with
    | fault e => exact hP h.2
    | outOfFuel => trivial

/-- **A checked program is safe.** Compiling it fails only for reasons that have nothing to do with the form,
or because code would be too large. Walking over it, or over any form in it, in any session that a walker has
brought about and wherever evaluation stands, finds no special form malformed; and no `recur` leaves a place
that has no target for it. -/
theorem check_safe {limit : Nat} (h : check limit f = .ok ()) :
    (∀ (P : Policy) (s t : Session) (e : Fault), s.Sound P →
      compileProgram f s = .error (.fault e) t →
        e.cause.IsOrdinary ∨ ∃ limit, e.cause = .codeTooLarge limit) ∧
    (∀ (guarded : Symbol → Option Native) (natives : NativeRunner),
      natives.Obedient (Policy.walking guarded) →
        ∀ (fuel : Nat) (s : Session), s.Sound (Policy.walking guarded) →
          (∀ {target isLast g}, f.Contains target isLast g → ∀ p : WalkPlace,
            g.Yields target isLast ((walker natives fuel).eval p g s)) ∧
          ∀ e t, TreeWalk.run natives fuel f s = .error (.fault e) t → e.cause.IsOrdinary) := by
  have accepted := accepted_of_check h
  refine ⟨fun P s t e hs failed => ?_, fun guarded natives hn fuel s hs => ⟨?_, fun e t failed => ?_⟩⟩
  · let Q := P.failing (fun c => c.IsOrdinary ∨ ∃ limit, c = .codeTooLarge limit) .inl
    have compiles := Obeys.compileProgram (P := Q) (fun limit => .inr ⟨limit, rfl⟩) accepted s hs.failing
    rw [failed] at compiles
    exact compiles.2
  · intro target isLast g contains p
    have hg := contains.accepted accepted
    have walks := obedient_walker (Policy.walks_walking guarded) hn fuel
    exact .of_ends hg id (walks.eval hg p s hs)
  · have runs := Obeys.treeWalkRun (Policy.walks_walking guarded) hn fuel accepted s hs
    rw [failed] at runs
    exact runs.2

/-- A loop that only ever starts over, where it is under way: in a scope in which its name is bound. -/
theorem check_safe_loop :
    let name := Form.symbol "i" .unknown
    let again := Form.call "recur" [name] .unknown
    let f := Form.call "loop" [.vector [name, .leaf (.int 0) .unknown] .unknown, again] .unknown
    let enter : Eval ScopeId := do
      let i ← Eval.openScope Scopes.root
      Eval.define i (← Eval.intern "i") (.int 0)
      return i
    check 4 f = .ok () ∧ f.Contains (some ⟨1, false⟩) true again ∧ ∃ i s, enter (.fresh {}) = .ok i s ∧
      s.Sound (Policy.walking fun _ => none) ∧
      (walker (Eval.runNative #[]) 3).eval ⟨.unknown, i, []⟩ again s = .ok (.recur [.int 0]) s ∧
      ∀ fuel p, again.Yields (some ⟨1, false⟩) true ((walker (Eval.runNative #[]) fuel).eval p again s) := by
  intro name again f enter
  have checked : check 4 f = .ok () := by decide +kernel
  have contains : f.Contains (some ⟨1, false⟩) true again :=
    .part .self (.loopBody rfl
      (show Shape.bindings "loop" f = .ok [("i", .leaf (.int 0) .unknown)] by cbv) (.last rfl))
  have natives : (Eval.runNative #[]).Obedient (Policy.walking fun _ => none) :=
    Obeys.runNative (by simp) fun _ => trivial
  have entered : Obeys (Policy.walking fun _ => none) enter ⊤ := by
    refine (Obeys.openScope _).bind fun i binds => (Obeys.intern _).bind fun x _ => ?_
    exact (Obeys.define binds x _).andThen fun _ => .pure trivial
  have fresh := Session.sound_fresh (P := Policy.walking fun _ => none) (fun _ => rfl) id rfl {}
  have sound := (entered _ fresh).1.sound fresh
  refine ⟨checked, contains, _, _, rfl, sound, rfl, fun fuel p => ?_⟩
  exact ((check_safe checked).2 _ _ natives fuel _ sound).1 contains p

end TwinLisp
