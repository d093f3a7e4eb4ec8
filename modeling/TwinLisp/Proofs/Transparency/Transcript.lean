import TwinLisp.Proofs.Transparency.Operations
import TwinLisp.Report.Comparison

/-!
# The collector changes nothing that a host sees

A host makes an engine and evaluates texts one after the other. What it sees of each step is the text of the
value or the failure, and what was printed. None of this depends on when the engine collects, as long as the
heap has room and no program asks for the counts of the heap.

Each session is compared with an ideal one that never collects and has no limit. In the ideal session, asking
for the counts ends everything, so the comparison is also a way to say that nobody asks.

## Main definitions

* `Engine.transcript`: what a host sees of a session.

## Main statements

* `Engine.transcript_eq_of_collection`.
-/

namespace TwinLisp

/-- What a host sees of a step. -/
structure Answer where
  /-- What came out of the text. -/
  outcome : ProgramOutcome
  /-- What was printed. -/
  output : String
  deriving DecidableEq

/-- The outcome is that the session has ended. -/
def ProgramOutcome.isEnd : ProgramOutcome → Bool
  | .failure kind _ _ => kind.isFatal
  | _ => false

/-- In none of the steps does the session end. -/
def Lasting (answers : List Answer) : Prop := ∀ a ∈ answers, a.outcome.isEnd = false

instance (answers : List Answer) : Decidable (Lasting answers) :=
  inferInstanceAs (Decidable (∀ a ∈ answers, a.outcome.isEnd = false))

namespace Engine

/-- What a host sees when it evaluates texts one after the other and takes the output after each. A step that
does not finish is the last one. -/
def answers (fuel : Nat) : Engine → List String → List Answer
  | _, [] => []
  | e, source :: sources =>
    let (made, e) := e.evaluateToText fuel source
    let (printed, e) := e.takeOutput
    match made with
    | .error .outOfFuel => [⟨.unfinished, ""⟩]
    | made => ⟨.ofResult made, printed⟩ :: answers fuel e sources

/-- What a host sees of a session: it makes an engine, with the macros of a text, and evaluates other texts one
after the other. -/
def transcript (backend : Backend) (limits : Limits) (fuel : Nat) (prelude : String) (sources : List String) :
    List Answer :=
  match create backend limits fuel prelude with
  | .ok e => answers fuel e sources
  | .error stop => [⟨.ofResult (.error stop), ""⟩]

end Engine

namespace Evaluator

/-- What a host sees of evaluations in a session. -/
def answers (e : Evaluator) : Session → List String → List Answer
  | _, [] => []
  | s, source :: sources =>
    match (do Eval.readable (← e.evaluateText source) : Eval String) s with
    | .ok text t => ⟨.value text, t.output⟩ :: answers e { t with output := "" } sources
    | .error (.fault f) t =>
      ⟨.failure f.kind f.location f.message, t.output⟩ :: answers e { t with output := "" } sources
    | .error .outOfFuel _ => [⟨.unfinished, ""⟩]

/-- What a host sees of a session that begins as `s`. -/
def transcript (e : Evaluator) (s : Session) (prelude : String) (sources : List String) : List Answer :=
  match e.start prelude s with
  | .ok _ t => e.answers t sources
  | .error stop _ => [⟨.ofResult (.error stop), ""⟩]

end Evaluator

theorem Engine.answers_eq (fuel : Nat) (e : Engine) (sources : List String) :
    answers fuel e sources = (e.evaluator fuel).answers e.session sources := by
  induction sources generalizing e with
  | nil => rfl
  | cons source sources ih =>
    unfold answers Evaluator.answers evaluateToText perform takeOutput
    dsimp only
    generalize (do Eval.readable (← (e.evaluator fuel).evaluateText source) : Eval String) e.session = r
    cases r with
    | ok text t => exact congrArg _ (ih _)
    | error stop t =>
      cases stop with
      | fault f => exact congrArg _ (ih _)
      | outOfFuel => rfl

theorem Engine.transcript_eq (backend : Backend) (limits : Limits) (fuel : Nat) (prelude : String)
    (sources : List String) : transcript backend limits fuel prelude sources =
      Evaluator.transcript ⟨backend, Eval.runNative #[], fuel⟩ (.fresh limits) prelude sources := by
  have made : create backend limits fuel prelude =
      match (Evaluator.mk backend (Eval.runNative #[]) fuel).start prelude (.fresh limits) with
      | .ok _ t => .ok ⟨backend, #[], t⟩
      | .error stop _ => .error stop := by
    unfold create perform evaluator
    dsimp only
    generalize (Evaluator.mk backend (Eval.runNative #[]) fuel).start prelude (.fresh limits) = r
    cases r <;> rfl
  unfold transcript Evaluator.transcript
  rw [made]
  generalize (Evaluator.mk backend (Eval.runNative #[]) fuel).start prelude (.fresh limits) = r
  cases r with
  | ok _ t => exact answers_eq fuel _ sources
  | error stop t => rfl

namespace Evaluator

variable {terms : Terms} {oldest : Nat} {e e' : Evaluator} {w : World} {s t : Session}
variable (h : ∀ oldest, Means.Match { terms with oldest } e.means e'.means)
include h

/-- Where sessions correspond that do not end, the answers are the same. -/
theorem answers_eq_of_match (sources : List String)
    (hm : s.Match (.transparent { terms with oldest }) w t) (closed : s.Closed)
    (left : Lasting (e.answers s sources)) (right : terms.mayEnd → Lasting (e'.answers t sources)) :
    e.answers s sources = e'.answers t sources := by
  induction sources generalizing w s t with
  | nil => rfl
  | cons source sources ih =>
    have agree : Agree (.transparent { terms with oldest }) nothing w s Same
        ((do Eval.readable (← e.evaluateText source) : Eval String) s)
        ((do Eval.readable (← e'.evaluateText source) : Eval String) t) := by
      rw [e.evaluateText_eq, e'.evaluateText_eq]
      exact (Means.Match.evaluateText h source hm closed).bind fun _ hm hv => (Sim.readable hv).agree hm
    -- Taking the output does not change what corresponds.
    have next {w' : World} {s' t' : Session} (hF : Preserves nothing w s w' s')
        (hm : s'.Match (.transparent { terms with oldest }) w' t')
        (left : Lasting (e.answers { s' with output := "" } sources))
        (right : terms.mayEnd → Lasting (e'.answers { t' with output := "" } sources)) :
        e.answers { s' with output := "" } sources = e'.answers { t' with output := "" } sources := by
      have taken : Session.Match (.transparent { terms with oldest }) w' { s' with output := "" }
          { t' with output := "" } :=
        { hm with eq := fun hs => by rw [hm.eq hs], output := rfl }
      have open' := closed.preserved hF
      exact ih taken ⟨open'.nesting, open'.floor⟩ left right
    unfold answers at left right ⊢
    generalize (do Eval.readable (← e.evaluateText source) : Eval String) s = r at agree left ⊢
    generalize (do Eval.readable (← e'.evaluateText source) : Eval String) t = r' at agree right ⊢
    cases agree with
    | ok hF hm hr =>
      cases hr
      have rest := next hF hm (List.forall_mem_cons.1 left).2 fun he => (List.forall_mem_cons.1 (right he)).2
      dsimp only
      rw [hm.output, rest]
    | fault hF hm hf =>
      have rest := next hF hm (List.forall_mem_cons.1 left).2 fun he => (List.forall_mem_cons.1 (right he)).2
      dsimp only
      rw [hm.output, rest, hf.kind_eq, hf.location, hf.message_eq]
    | outOfFuel _ => rfl
    | fatal hf _ =>
      have lasts : (ProgramOutcome.failure _ _ _).isEnd = false := (List.forall_mem_cons.1 left).1
      exact absurd (hf.symm.trans lasts) nofun
    | fatalRight he hf =>
      have lasts : (ProgramOutcome.failure _ _ _).isEnd = false := (List.forall_mem_cons.1 (right he)).1
      exact absurd (hf.symm.trans lasts) nofun

/-- Where sessions correspond that do not end, the transcripts are the same. -/
theorem transcript_eq_of_match (prelude : String) (sources : List String)
    (hm : s.Match (.transparent { terms with oldest }) w t) (closed : s.Closed)
    (left : Lasting (e.transcript s prelude sources)) (right : terms.mayEnd → Lasting (e'.transcript t prelude sources)) :
    e.transcript s prelude sources = e'.transcript t prelude sources := by
  have agree := Means.Match.start h prelude hm closed
  unfold transcript at left right ⊢
  rw [e.start_eq, e'.start_eq] at *
  generalize e.means.start prelude s = r at agree left ⊢
  generalize e'.means.start prelude t = r' at agree right ⊢
  cases agree with
  | ok hF hm _ => exact answers_eq_of_match h sources hm (closed.preserved hF) left right
  | fault hF hm hf =>
    dsimp only [ProgramOutcome.ofResult]
    rw [hf.kind_eq, hf.location, hf.message_eq]
  | outOfFuel _ => rfl
  | fatal hf _ =>
    have lasts : (ProgramOutcome.failure _ _ _).isEnd = false := (List.forall_mem_cons.1 left).1
    exact absurd (hf.symm.trans lasts) nofun
  | fatalRight he hf =>
    have lasts : (ProgramOutcome.failure _ _ _).isEnd = false := (List.forall_mem_cons.1 (right he)).1
    exact absurd (hf.symm.trans lasts) nofun

end Evaluator

namespace Engine

/-- A session is like an ideal one in which nobody asks for the counts of the heap. -/
theorem transcript_eq_ideal (mayEnd : Prop) (limits limits' : Limits) {backend : Backend} {fuel : Nat}
    {prelude : String} {sources : List String} {natives : NativeRunner}
    (hn : ∀ oldest, NativeRunner.Match (.transparent { Terms.initial False mayEnd with oldest }) natives (Eval.watched #[]))
    (call : limits.callDepth = limits'.callDepth)
    (form : limits.formDepth = limits'.formDepth) (macros : limits.macroDepth = limits'.macroDepth)
    (left : Lasting (Evaluator.transcript ⟨backend, natives, fuel⟩ (.fresh limits) prelude sources))
    (right : mayEnd →
      Lasting (Evaluator.transcript ⟨backend, Eval.watched #[], fuel⟩ (.ideal limits') prelude sources)) :
    Evaluator.transcript ⟨backend, natives, fuel⟩ (.fresh limits) prelude sources =
      Evaluator.transcript ⟨backend, Eval.watched #[], fuel⟩ (.ideal limits') prelude sources := by
  have begin : (Session.fresh limits).Match (.transparent (.initial False mayEnd)) (.fresh False)
      (.ideal limits') :=
    Session.match_fresh False.elim fun _ => ⟨limits', call, form, macros, rfl⟩
  exact Evaluator.transcript_eq_of_match (fun oldest => Evaluator.means_match (hn oldest) backend fuel) prelude sources
    begin ⟨rfl, rfl⟩ left right

/-- **The collector changes nothing that a host sees.** Two engines with the same limits but for when they
collect answer alike, step by step, as long as the heap of neither fills up and nobody asks for the counts of
the heap, which is to say that the session lasts even if asking for them ends it. -/
theorem transcript_eq_of_collection (backend : Backend) (limits : Limits) (fuel : Nat)
    (prelude : String) (sources : List String) (collectAfter : Nat) (alwaysCollect : Bool)
    (roomy : Lasting (transcript backend limits fuel prelude sources))
    (roomy' : Lasting (transcript backend { limits with collectAfter, alwaysCollect } fuel prelude sources))
    (uncounted :
      Lasting (Evaluator.transcript ⟨backend, Eval.watched #[], fuel⟩ (.fresh limits) prelude sources)) :
    transcript backend { limits with collectAfter, alwaysCollect } fuel prelude sources =
      transcript backend limits fuel prelude sources := by
  have watched := transcript_eq_ideal False limits limits
    (fun _ => NativeRunner.Match.watched (by simp) trivial) rfl rfl rfl uncounted False.elim
  have lasting := watched ▸ uncounted
  rw [transcript_eq] at roomy roomy' ⊢
  rw [transcript_eq]
  have plain := transcript_eq_ideal True limits limits
    (fun _ => NativeRunner.Match.unwatched (by simp) trivial trivial) rfl rfl rfl roomy fun _ => lasting
  have other := transcript_eq_ideal True { limits with collectAfter, alwaysCollect } limits
    (fun _ => NativeRunner.Match.unwatched (by simp) trivial trivial) rfl rfl rfl roomy' fun _ => lasting
  exact other.trans plain.symm

/-- A loop that leaves garbage behind, with a macro and with a collection in each round. -/
theorem transcript_eq_of_collection_loop :
    let prelude := "(defmacro twice [x] (list '+ x x))"
    let source := "(loop [i 0] (if (< i 1) (recur (count (list i))) (list (twice i))))"
    ((create .machine { collectAfter := 2 } 60 prelude).toOption.any fun e =>
        0 < (e.evaluate 60 source).2.session.heap.stats.freed) = true ∧
      Lasting (transcript .machine {} 60 prelude [source]) ∧
      Lasting (transcript .machine { collectAfter := 2 } 60 prelude [source]) ∧
      Lasting (Evaluator.transcript ⟨.machine, Eval.watched #[], 60⟩ (.fresh {}) prelude [source]) ∧
      transcript .machine { collectAfter := 2 } 60 prelude [source] = transcript .machine {} 60 prelude [source] ∧
      transcript .machine {} 60 prelude [source] = [⟨.value "(2)", ""⟩] := by
  intro prelude source
  have answer : transcript .machine {} 60 prelude [source] = [⟨.value "(2)", ""⟩] := by decide +kernel
  have roomy : Lasting (transcript .machine {} 60 prelude [source]) := answer ▸ by decide
  have roomy' : Lasting (transcript .machine { collectAfter := 2 } 60 prelude [source]) := by decide +kernel
  have uncounted : Lasting (Evaluator.transcript ⟨.machine, Eval.watched #[], 60⟩ (.fresh {}) prelude [source]) := by
    decide +kernel
  exact ⟨by decide +kernel, roomy, roomy', uncounted,
    transcript_eq_of_collection .machine {} 60 prelude [source] 2 false roomy roomy' uncounted, answer⟩

end Engine

end TwinLisp
