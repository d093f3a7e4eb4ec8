import TwinLisp.Proofs.Template.Expand
import TwinLisp.Proofs.Template.Program

/-!
# Templates build their values

Both backends fill a template in when they evaluate the code that it stands for, whether that code is a program of
its own or stands somewhere in one.

## Main definitions

* `Template.Fills`: a backend fills a template in.
* `FreshNames.Serves`: some fresh names are those of a template.

## Main statements

* `Template.fills`: both backends fill templates in.
* `Template.builder_fills`: a template is malformed, or both backends fill it in when they evaluate its code.
-/

namespace TwinLisp

/-- In an intact engine, a program that has been checked may be run if it mentions no objects. -/
theorem Engine.Intact.mayRun {e : Engine} {since : Heap} (h : e.Intact since) {P : Policy} (sound : e.session.Sound P)
    {f : Form} (accepted : f.Accepted none false) (plain : f.Mentions fun _ => False) :
    e.session.MayRun P (.own since) f where
  sound := sound
  accepted := accepted
  known := plain.imp fun _ => False.elim
  whole := by
    obtain ⟨w, -, hm⟩ := h.whole
    exact ⟨w, hm, plain.imp fun _ => False.elim⟩

namespace Template

/-! ### What backends do for the code of templates -/

/-- The backend evaluates forms within a program, each on a course: the walker at the places in a scope, or the
machine in code for a place, which it runs in a frame. Objects that are mentioned are those that they were when the
heap was `since`. -/
inductive Evaluation (hosts : HostTable) (since : Heap) : Backend → (Form → Course Value → Prop) → Prop where
  | walker (n : Nat) (σ : ScopeId) : Evaluation hosts since .treeWalk
      (Takes (Backend.treeWalk.policy unguarded) (.own since) (Eval.runNative hosts) n σ)
  | machine (base fuel : Nat) (q : CompilePlace) (m : Machine) : Evaluation hosts since .machine
      (Performs (Backend.machine.policy unguarded) False (.own since) base (Eval.runNative hosts)
        (Machine.caller (Eval.runNative hosts) (fuel + 1)) q m)

/-- The backend begins to run a program: the code for it is there, and forms in it are evaluated from now on. -/
inductive Begins (hosts : HostTable) (since : Heap) (fuel : Nat) (f : Form) (s : Session) :
    Backend → Session → (Form → Course Value → Prop) → Prop where
  | walker {n : Nat} (enough : n + f.height < fuel) : Begins hosts since fuel f s .treeWalk s
      (Takes (Backend.treeWalk.policy unguarded) (.own since) (Eval.runNative hosts) n Scopes.root)
  | machine {q : Prototype} {c : ArityCode Prototype} {t : Session} (compiled : compileProgram f s = .ok q t)
    (selected : q.selectArity? 0 = some c) : Begins hosts since fuel f s .machine t
      (Performs (Backend.machine.policy unguarded) False (.own since) t.callDepth (Eval.runNative hosts)
        (Machine.caller (Eval.runNative hosts) fuel) .outset (.ofProgram t.operands q c))

/-- The backend fills the template in when it evaluates the code, where `name` gives the names of symbols. -/
structure Fills (b : Backend) (hosts : HostTable) (plan : Plan) (name : String → String) : Prop where
  /-- It does so within programs. -/
  inside {since : Heap} {Takes : Form → Course Value → Prop} (ev : Evaluation hosts since b Takes)
    {hole : Form → Course Value} (holes : ∀ e ∈ plan.expressions, Takes e (hole e)) :
    Takes (plan.code name) (plan.fill (literal since.embedded?) hole name)
  /-- And it does so where the code is a program of its own. -/
  alone {since : Heap} {s t : Session} {fuel : Nat} {Takes : Form → Course Value → Prop}
    (ready : s.MayRun (b.policy unguarded) (.own since) (plan.code name))
    (begins : Begins hosts since fuel (plan.code name) s b t Takes) (supplies : t.Supplies Scopes.root)
    {hole : Form → Course Value} (holes : ∀ e ∈ plan.expressions, Takes e (hole e)) :
    (plan.fill (literal since.embedded?) hole name).Allows t
      ((Evaluator.mk b (Eval.runNative hosts) fuel).run (plan.code name) s)

variable {b : Backend} {hosts : HostTable} {since : Heap} {plan : Plan} {name : String → String}
variable {hole : Form → Course Value}

theorem callsNatives_caller (natives : NativeRunner) (fuel : Nat) :
    CallsNatives natives (Machine.caller natives (fuel + 1)) := by
  intro s a f k args hf body
  exact ⟨s.attribution.site, Machine.caller natives fuel, Eval.bind_eq_of_ok (Machine.callee_native hf body _)⟩

theorem supported_walker (honest : ∀ h ∈ hosts, h.Honest .treeWalk) (since : Heap) :
    Supported (Backend.treeWalk.policy unguarded) (.own since) hosts where
  walks := Backend.treeWalk.allowed_policy unguarded
  self := trivial
  obedient := Obeys.runNative (fun h mem => (honest h mem).tidy) (Backend.treeWalk.writes_policy unguarded)
  alike := NativeRunner.Match.itself (fun h mem => (honest h mem).faithful 0 since) trivial trivial

theorem equipped_machine (honest : ∀ h ∈ hosts, h.Honest .machine) (since : Heap) (fuel : Nat) :
    Machine.Equipped (Backend.machine.policy unguarded) False (.own since) (Eval.runNative hosts)
      (Machine.caller (Eval.runNative hosts) fuel) := by
  have runs := Backend.machine.allowed_policy unguarded
  have obedient : (Eval.runNative hosts).Obedient (Backend.machine.policy unguarded) :=
    Obeys.runNative (fun h mem => (honest h mem).tidy) (Backend.machine.writes_policy unguarded)
  have alike : NativeRunner.Match (.transparent (.own since)) (Eval.runNative hosts) (Eval.runNative hosts) :=
    NativeRunner.Match.itself (fun h mem => (honest h mem).faithful 0 since) trivial trivial
  exact ⟨runs.1, obedient, Obeys.machineCaller runs.1 obedient fuel, alike,
    Caller.Agree.quiet (Machine.caller_match alike fuel)⟩

/-- What is evaluated within a program is evaluated as the code of templates is. -/
theorem Evaluation.evaluates {Takes : Form → Course Value → Prop} (ev : Evaluation hosts since b Takes)
    (honest : ∀ h ∈ hosts, h.Honest b) : Evaluates (literal since.embedded?) Takes := by
  cases ev with
  | walker n σ => exact evaluates_walker (supported_walker honest since) n σ
  | machine base fuel q m =>
    exact evaluates_machine (equipped_machine honest since _) (callsNatives_caller _ fuel)
      (Backend.machine.allowed_policy unguarded).2

/-- The machine runs the code that a program is compiled to. -/
theorem run_machine {f : Form} {s t : Session} {fuel : Nat} {q : Prototype} {c : ArityCode Prototype}
    (compiled : compileProgram f s = .ok q t) (selected : q.selectArity? 0 = some c) :
    (Evaluator.mk .machine (Eval.runNative hosts) fuel).run f s =
      Machine.run (Eval.runNative hosts) (Machine.caller (Eval.runNative hosts) fuel) fuel
        (.ofProgram t.operands q c) t := by
  refine (Eval.bind_eq_of_ok compiled).trans ?_
  rw [selected]
  rfl

/-- **Both backends fill templates in.** -/
theorem fills (honest : ∀ h ∈ hosts, h.Honest b) (plan : Plan) (name : String → String) : Fills b hosts plan name where
  inside ev _ holes := (ev.evaluates honest).fill name plan holes
  alone {since s t fuel _} ready begins supplies {hole} holes := by
    cases begins with
    | walker enough =>
      exact Takes.run (((Evaluation.walker _ _).evaluates honest).fill name plan holes) enough ready supplies
    | @machine q c _ compiled selected =>
      rw [run_machine compiled selected]
      cases fuel with
      | zero => exact .inr (.inl rfl)
      | succ fuel =>
        exact Performs.run (equipped_machine honest since _) (Backend.machine.allowed_policy unguarded).2 ready compiled
          selected supplies
          (((Evaluation.machine _ fuel _ _).evaluates honest).fill name plan holes)

/-! ### Fresh names -/

/-- The names are new ones after `n` others: one for each base, and no name for two. -/
structure FreshNames.Serves (names : FreshNames) (n : Nat) (bases : List String) : Prop where
  since : names.Since n
  found : ∀ base ∈ bases, ∃ name, names.lookup base = some name
  once {base other name : String} (first : names.lookup base = some name) (second : names.lookup other = some name) :
    base = other

/-- **A template is malformed, or both backends fill it in when they evaluate its code**, with one fresh name for
each name that ends in `#`. The code is expanded by expanding the expressions in the template. -/
theorem builder_fills (honest : ∀ h ∈ hosts, h.Honest b) (f : Form) (s : Session) :
    (f.templates = 0 → plan? f = none → ∃ form what l t, builder f s = .error (.fault (malformed form what l)) t) ∧
    ∀ plan, plan? f = some plan → ∃ names : FreshNames, ∃ t, t = { s with generated := s.generated + names.length } ∧
      names.Serves s.generated plan.bases ∧ builder f s = .ok (plan.code names.rename) t ∧
      (∀ {onMacro : ExpansionPlace → String → Value → Form → Eval Form} {n : Nat}, s.CallsPlainly →
        (∀ e ∈ plan.expressions, StaysPlain (hooksWithin onMacro n) e) → ∀ p l,
          Eval.expandWithin onMacro (n + 1) p (.call "syntax-quote" [f] l) s =
            (do return (← plan.expand (hooksWithin onMacro n) (p.within l)).code names.rename : Eval Form) t) ∧
      ∀ later, Fills b hosts later names.rename := by
  refine ⟨fun alone none => malformed_of_plan?_eq_none alone none s, fun plan planned => ?_⟩
  obtain ⟨names, since, found, built⟩ := Plan.builder_eq planned s
  refine ⟨names, _, rfl, ⟨since, found, since.base_eq⟩, built, fun plain stays p l => ?_, fun later =>
    fills honest later names.rename⟩
  exact expandWithin_template built plain stays p l

/-! ### Where nothing but the built-in functions is there -/

/-- Where the built-in functions have been defined, programs that mention no objects may be run. -/
theorem mayRun_of_defineBuiltins (b : Backend) {limits : Limits} {s : Session}
    (defined : Eval.defineBuiltins (.fresh limits) = .ok () s) (alive : s.terminated = false) {f : Form}
    (accepted : f.Accepted none false) (plain : f.Mentions fun _ => False) :
    s.MayRun (b.policy unguarded) (.own (.empty none)) f := by
  have intact : Engine.Intact (.empty none) ⟨b, #[], s⟩ :=
    (Engine.intact_fresh b limits).after (fun _ hm => Sim.defineBuiltins.agree hm) (.inl ⟨(), defined⟩) alive
  have free (x : Symbol) : (b.policy unguarded).guarded x = none := by
    rw [b.guarded_policy]
    rfl
  have sound : (Session.fresh limits).Sound (b.policy unguarded) :=
    Session.sound_fresh free (b.not_quiet_policy unguarded) (b.frozen_policy unguarded) limits
  have frees : (b.policy unguarded).Frees fun _ => True := fun _ _ => .inr free
  have leads := Obeys.defineBuiltins frees (fun _ => trivial) _ sound
  rw [defined] at leads
  exact intact.mayRun (leads.1.sound sound) accepted plain

/-- A session in which nothing has happened but that the built-in functions were defined. -/
@[irreducible] def stocked : Session :=
  match Eval.defineBuiltins (.fresh {}) with
  | .ok _ s => s
  | .error _ s => s

theorem defineBuiltins_fresh : Eval.defineBuiltins (.fresh {}) = .ok () stocked := by
  have room : (match Eval.defineBuiltins (.fresh {}) with | .ok _ _ => true | .error _ _ => false) = true := by
    decide +kernel
  unfold stocked
  cases defined : Eval.defineBuiltins (.fresh {}) with
  | ok _ s => rfl
  | error _ s =>
    rw [defined] at room
    cases room

/-- What comes of a program there. -/
def outcome (b : Backend) (f : Form) : EStateM.Result Stop Session Value :=
  (Evaluator.mk b (Eval.runNative #[]) 200).run f stocked

/-- The text of what a program comes to. -/
def shown (b : Backend) (f : Form) : Option String :=
  match outcome b f with
  | .ok v s => some (s.text true v)
  | .error _ _ => none

theorem outcome_of_shown {b : Backend} {f : Form} {text : String} (h : shown b f = some text) :
    ∃ v s, outcome b f = .ok v s ∧ s.text true v = text := by
  unfold shown at h
  split at h
  · next v s came => exact ⟨v, s, came, Option.some.inj h⟩
  · cases h

/-- A number in a template. -/
def digit (n : Int64) : Form := .leaf (.int n) .unknown

/-- `(list 2 3)` -/
def twoThree : Form := .call "list" [digit 2, digit 3] .unknown

/-- `` (a ~1 ~@(list 2 3) x# x#) `` -/
def sample : Form :=
  .group .list [.symbol "a" .unknown, .call "unquote" [digit 1] .unknown,
    .call "unquote-splicing" [twoThree] .unknown, .symbol "x#" .unknown, .symbol "x#" .unknown] .unknown

/-- The code that stands for the sample. -/
def sampleCode : Form := ((builder sample).run' stocked).getD sample

/-- What the expressions in the sample come to. -/
def sampleHole (e : Form) : Course Value :=
  match e with
  | .leaf d _ => literal (Heap.empty none).embedded? d
  | _ => ofCall .list [literal (Heap.empty none).embedded? (.int 2), literal (Heap.empty none).embedded? (.int 3)]

theorem expressions_sample {plan : Plan} (planned : plan? sample = some plan) :
    plan.expressions = [digit 1, twoThree] := by
  have both : (plan? sample).map Plan.expressions = some [digit 1, twoThree] := rfl
  rw [planned] at both
  exact Option.some.inj both

theorem Evaluates.sampleHole {Takes : Form → Course Value → Prop}
    (ev : Evaluates (literal (Heap.empty none).embedded?) Takes) {plan : Plan} (planned : plan? sample = some plan) :
    ∀ e ∈ plan.expressions, Takes e (sampleHole e) := by
  have number (n : Int64) : Takes (digit n) (literal (Heap.empty none).embedded? (.int n)) :=
    ev.leaf (fun _ h => by cases h) .unknown
  rw [expressions_sample planned]
  simp only [List.forall_mem_cons, List.not_mem_nil, false_imp_iff, implies_true, and_true]
  exact ⟨number 1, ev.call (b := .list) (by simp) (.cons (number 2) (.cons (number 3) .nil)) .unknown⟩

/-- Macro calls are left as they are. -/
def leftAlone : ExpansionPlace → String → Value → Form → Eval Form := fun _ _ _ f => pure f

theorem staysPlain_sample {hooks : Eval.ExpansionHooks} {plan : Plan} (planned : plan? sample = some plan) :
    ∀ e ∈ plan.expressions, StaysPlain hooks e := by
  have number (n : Int64) : StaysPlain hooks (digit n) := .leaf _ _
  rw [expressions_sample planned]
  simp only [List.forall_mem_cons, List.not_mem_nil, false_imp_iff, implies_true, and_true]
  exact ⟨number 1, .call (b := .list) (by decide) (by simp [number]) .unknown⟩

theorem shown_sampleCode (b : Backend) : shown b sampleCode = some "(a 1 2 3 x__1__auto__ x__1__auto__)" := by
  cases b <;> decide +kernel

theorem settled_sampleHole (e : Form) : (sampleHole e).Settled := by
  unfold sampleHole
  split
  · exact settled_literal _ _
  · refine .ofCall (by decide) fun x hx => ?_
    simp only [List.mem_cons, List.not_mem_nil, or_false] at hx
    rcases hx with rfl | rfl <;> exact settled_literal _ _

/-- The backend fills the sample in, in `stocked`, and returns what comes of that. The code comes of expanding it. -/
def FillsSample (b : Backend) : Prop :=
  ∃ (plan : Plan) (names : FreshNames) (t : Session) (Takes : Form → Course Value → Prop) (v : Value) (u : Session),
    plan? sample = some plan ∧ names.Serves stocked.generated plan.bases ∧
    Eval.expandWithin leftAlone 1 ⟨.unknown, []⟩ (.call "syntax-quote" [sample] .unknown) stocked =
      (do return (← plan.expand (hooksWithin leftAlone 0) ⟨.unknown, []⟩).code names.rename : Eval Form)
        { stocked with generated := stocked.generated + names.length } ∧
    Begins #[] (.empty none) 200 (plan.code names.rename) stocked b t Takes ∧
    outcome b (plan.code names.rename) = .ok v u ∧ u.text true v = "(a 1 2 3 x__1__auto__ x__1__auto__)" ∧
    plan.fill (literal (Heap.empty none).embedded?) sampleHole names.rename t (.value v u)

theorem builder_fills_sample :
    (∃ form what l t, builder (.call "unquote-splicing" [digit 1] .unknown) stocked =
      .error (.fault (malformed form what l)) t) ∧ FillsSample .treeWalk ∧ FillsSample .machine := by
  obtain ⟨plan, planned⟩ : ∃ plan, plan? sample = some plan := ⟨_, rfl⟩
  have alone {b : Backend} : ∀ h ∈ (#[] : HostTable), h.Honest b := fun h mem => absurd mem (Array.not_mem_empty h)
  obtain ⟨alive, functions, checked, bare, low, supplies, compiles⟩ : stocked.terminated = false ∧
      (∀ b ∈ Session.needed, stocked.macro? b.name = none) ∧
      check 200 sampleCode = .ok () ∧ sampleCode.handles = [] ∧ 0 + sampleCode.height < 200 ∧
      stocked.Supplies Scopes.root ∧ (match compileProgram sampleCode stocked with
        | .ok q t => (q.selectArity? 0).isSome && decide (t.Supplies Scopes.root)
        | .error _ _ => false) = true := by decide +kernel
  have plain : sampleCode.Mentions fun _ => False := fun k hk => absurd (bare ▸ hk) List.not_mem_nil
  have filled (b : Backend) {t : Session} {Takes : Form → Course Value → Prop}
      (begins : Begins #[] (.empty none) 200 sampleCode stocked b t Takes) (supplies : t.Supplies Scopes.root)
      (ev : Evaluates (literal (Heap.empty none).embedded?) Takes) : FillsSample b := by
    obtain ⟨names, _, rfl, serves, built, expanded, fills⟩ :=
      (builder_fills (b := b) alone sample stocked).2 plan planned
    have same : sampleCode = plan.code names.rename := by
      unfold sampleCode EStateM.run' EStateM.run
      rw [built]
      rfl
    have ready := mayRun_of_defineBuiltins b defineBuiltins_fresh alive (accepted_of_check checked) plain
    obtain ⟨v, u, came, text⟩ := outcome_of_shown (shown_sampleCode b)
    rw [same] at ready begins came
    have filled : Course.Allows _ t (outcome b (plan.code names.rename)) :=
      (fills plan).alone ready begins supplies (ev.sampleHole planned)
    rw [came] at filled
    have settled := plan.settled_fill (settled_literal (Heap.empty none).embedded?) names.rename
      fun e _ => settled_sampleHole e
    exact ⟨plan, names, t, Takes, v, u, planned, serves, expanded functions (staysPlain_sample planned) _ _, begins,
      came, text, filled.value settled⟩
  refine ⟨(builder_fills (b := .treeWalk) alone _ stocked).1 rfl rfl, ?_, ?_⟩
  · exact filled .treeWalk (.walker low) supplies ((Evaluation.walker 0 Scopes.root).evaluates alone)
  · cases compiled : compileProgram sampleCode stocked with
    | error _ _ =>
      rw [compiled] at compiles
      cases compiles
    | ok q t =>
      rw [compiled] at compiles
      obtain ⟨found, supplies⟩ := Bool.and_eq_true_iff.1 compiles
      obtain ⟨c, selected⟩ := Option.isSome_iff_exists.1 found
      exact filled .machine (.machine compiled selected) (of_decide_eq_true supplies)
        ((Evaluation.machine t.callDepth 199 .outset (.ofProgram t.operands q c)).evaluates alone)

/-- `` {~@[1 2] ~@[3]} `` -/
def oddSample : Form :=
  .group .map [.call "unquote-splicing" [.group .vector [digit 1, digit 2] .unknown] .unknown,
    .call "unquote-splicing" [.group .vector [digit 3] .unknown] .unknown] .unknown

/-- The code that stands for that template. -/
def oddCode : Form :=
  applied "hash-map" [.group .vector [digit 1, digit 2] .unknown, .group .vector [digit 3] .unknown] .unknown

/-- The cause of the failure that a program comes to. -/
def failure? (b : Backend) (f : Form) : Option Cause :=
  match outcome b f with
  | .ok _ _ => none
  | .error (.fault f) _ => some f.cause
  | .error .outOfFuel _ => none

/-- Where elements are spliced into a map, there may be a key too many. Then there is no map, though all expressions
have values, and a quoted form with these items stands for one. -/
theorem failure_oddCode :
    oddSample.templates = 0 ∧ (builder oddSample).run' stocked = some oddCode ∧ stocked.Supplies Scopes.root ∧
      (∀ b ∈ [Backend.treeWalk, .machine], shown b (.group .vector [digit 1, digit 2] .unknown) = some "[1 2]" ∧
        shown b (.group .vector [digit 3] .unknown) = some "[3]" ∧
        shown b (.call "quote" [.group .map [digit 1, digit 2, digit 3] .unknown] .unknown) = some "{1 2, 3 nil}" ∧
        failure? b oddCode = some (.typeMismatch "hash-map" "even number of arguments" "odd number")) := by
  refine ⟨by decide, rfl, by decide +kernel, by decide +kernel⟩

end Template

end TwinLisp
