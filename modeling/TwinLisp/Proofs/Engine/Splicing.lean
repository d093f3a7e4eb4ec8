import TwinLisp.Proofs.Engine.Requests

/-!
# Objects in code

A macro may put a function, an atom or a host object into the code that it returns. The code mentions the
object by a handle, and may end up anywhere: it is evaluated at once, it stands in the body of a function or
macro, or under `quote`. It may be evaluated long after, when much has been collected.

Wherever it is, the mention yields that object. The objects in code that is running or that a closure still
has are never taken away, and no handle comes to stand for another object. But a handle that is mentioned no
more is dropped by the next collection between top-level forms.

## Main definitions

* `Session.Yields`: what a mention yields.
* `Engine.Splices`: objects in code stay themselves, and handles are dropped in time.

## Main statements

* `Engine.Hosted.splices`: objects in code stay themselves in all engines of hosts.
-/

namespace TwinLisp

/-! ### What mentions yield -/

/-- Wherever a handle is mentioned, it yields the value: where forms are walked over, where they are compiled,
and under `quote`. -/
structure Session.Yields (s : Session) (n : Nat) (v : Value) : Prop where
  walked (w : Walker) (p : WalkPlace) (l : Location) :
    w.step p (.leaf (.object n) l) s = .ok (.value v) s
  compiled (c : Compiler) (p : CompilePlace) (l : Location) (a : Assembly) :
    c.step p (.leaf (.object n) l) a s = Compiler.constant (p.within l) v a s
  quoted (l : Location) : Eval.valueOfForm (.leaf (.object n) l) s = .ok v s

namespace Session

variable {s : Session} {n : Nat} {v : Value}

/-- A mention yields what the handle stands for. -/
theorem yields_iff : s.Yields n v ↔ s.heap.embedded? n = some v := by
  constructor
  · intro h
    have quoted : Eval.embedded n s = .ok v s := h.quoted .unknown
    cases hv : s.heap.embedded? n with
    | some u =>
      rw [Eval.embedded_eq_of_some hv] at quoted
      cases quoted
      rfl
    | none =>
      rw [Eval.embedded_eq_of_none hv] at quoted
      cases quoted
  · intro hv
    have leaf : Eval.valueOfLeaf (.object n) s = .ok v s := Eval.embedded_eq_of_some hv
    refine ⟨fun w p l => ?_, fun c p l a => ?_, fun l => leaf⟩
    · exact (Eval.bind_eq_of_ok leaf).trans rfl
    · change EStateM.bind (EStateM.bind (Eval.valueOfLeaf (.object n)) _) _ s = _
      rw [EStateM.bind, EStateM.bind, leaf]
      rfl

/-- What a vigilant evaluator makes sure of: the mention yields something that is there, and yields what it
yielded before. -/
theorem vouchesFor_iff {since : Heap} : s.heap.vouchesFor since n = true ↔
    ∃ v, s.Yields n v ∧ s.heap.has v = true ∧ (n < since.nextHandle → since.embedded? n = some v) := by
  unfold Heap.vouchesFor
  simp only [yields_iff]
  cases s.heap.embedded? n with
  | none => simp
  | some v => simp [imp_iff_not_or]

/-- Hosts pin values, not handles. -/
theorem handle_notMem_ownRoots : .handle n ∉ s.ownRoots := by
  simp only [ownRoots, Node.ofValues, List.mem_cons, List.mem_flatMap, not_or, not_exists, not_and]
  refine ⟨(fun h => by cases h), fun v _ hn => ?_⟩
  cases v <;> simp [Node.ofValue] at hn

end Session

/-- In code, what is told apart by its address is mentioned by a new handle, which stands for it. -/
theorem Eval.formWithin_identity {s : Session} (fuel : Nat) {o : Object} (h : o.isIdentity = true)
    (a : Address) : ∃ t, formWithin fuel (.ref o.kind a) s = .ok (leaf (.object s.heap.nextHandle)) t ∧
      t.heap = (s.heap.embed (.ref o.kind a)).1 := by
  cases o with
  | function f => exact ⟨_, by cases fuel <;> rfl, rfl⟩
  | atom v => exact ⟨_, by cases fuel <;> rfl, rfl⟩
  | host x => exact ⟨_, by cases fuel <;> rfl, rfl⟩
  | _ => cases h

/-! ### Sessions that have ended -/

/-- Nothing comes after finding that the session has ended. -/
theorem Eval.checkAlive_bind {α : Type} {s : Session} (ended : s.terminated = true) {x : Unit → Eval α} :
    (checkAlive >>= x) s = .error (.fault (.of .terminated)) s := by
  have found : checkAlive s = .error (.fault (.of .terminated)) s := by
    unfold checkAlive
    rw [get_bind, if_pos ended]
    rfl
  exact bind_eq_of_error found

namespace Evaluator

variable (ev : Evaluator) {s : Session} (ended : s.terminated = true)
include ended

/-- In a session that has ended, no form is evaluated. -/
theorem evaluate_of_terminated (f : Form) : ∃ stop, ev.evaluate f s = .error stop s := by
  unfold evaluate
  cases ev.fuel with
  | zero => exact ⟨_, rfl⟩
  | succ depth =>
    unfold evaluateWithin
    exact ⟨_, by rw [Eval.checkAlive_bind ended]⟩

/-- In a session that has ended, no function is called from outside. -/
theorem apply_of_terminated (callee : Value) (args : List Value) :
    ∃ stop, ev.apply callee args s = .error stop s :=
  ⟨_, Eval.checkAlive_bind ended⟩

end Evaluator

/-! ### Objects in the code of an engine -/

namespace Engine

/-- Objects in code stay themselves, and handles are dropped in time. -/
structure Splices (e : Engine) : Prop where
  /-- In the code that a macro returns, each function, atom or host object becomes a mention that yields it. -/
  mentioned (s : Session) (fuel : Nat) {o : Object} (h : o.isIdentity = true) (a : Address) :
    ∃ n t, Eval.formWithin fuel (.ref o.kind a) s = .ok (Eval.leaf (.object n)) t ∧
      t.Yields n (.ref o.kind a)
  /-- A vigilant evaluator makes sure, before it evaluates a form, that every mention in it yields what it
  yielded when the run began, and that this is there. -/
  vouched {s : Session} {since : Heap} {n : Nat} : s.heap.vouchesFor since n = true ↔
    ∃ v, s.Yields n v ∧ s.heap.has v = true ∧ (n < since.nextHandle → since.embedded? n = some v)
  /-- Whatever is asked of the engine, that is so of every mention that is come by; and every object in the
  code that a machine runs is there. -/
  watched {α : Type} {r : HostRequest α} (genuine : r.Genuine e.session) (fuel : Nat) (lost : Stop) :
    r.runBy ((e.evaluator fuel).vigilant lost) e.session = r.run (e.evaluator fuel) e.session
  /-- No failure says that an object was not there. -/
  noLoss {α : Type} {r : HostRequest α} (genuine : r.Genuine e.session) {fuel : Nat} {f : Fault}
    {t : Session} : r.run (e.evaluator fuel) e.session = .error (.fault f) t → f.cause.isLoss = false
  /-- However a session changes, no handle and no address comes to stand for anything else. -/
  changed {P : Policy} {s t : Session} (sound : s.Sound P) (evolves : s.Evolves P t) :
    t.heap.Continues s.heap ∧ s.Keeps (fun _ => True) t
  /-- Nor does it when something more has been asked of the engine, however often. -/
  later {e' : Engine} (later : e.Later e') :
    e'.session.heap.Continues e.session.heap ∧ e.session.Keeps (fun _ => True) e'.session
  /-- A session that has ended evaluates nothing more. -/
  ended {s : Session} (ended : s.terminated = true) (fuel : Nat) :
    (∀ f, ∃ stop, (e.evaluator fuel).evaluate f s = .error stop s) ∧
      ∀ callee args, ∃ stop, (e.evaluator fuel).apply callee args s = .error stop s
  /-- Between the requests of a host, no top-level form is open. -/
  closed : e.session.heap.floor = none
  /-- Where none is open, a collection drops all handles that nothing mentions: neither the code that is
  running nor a closure that is reached from the root, from a pinned value or from what is in use. -/
  dropped {s : Session} (closed : s.heap.floor = none) {roots : List Node} {n : Nat}
    (unheld : .handle n ∉ roots) (v : Value) : (s.collectGarbage roots).1.Yields n v ↔
      s.Yields n v ∧ s.heap.IsMentioned s.scopes (s.ownRoots ++ roots) n

variable {e : Engine}

/-- **Objects in code stay themselves** in all engines that hosts bring about. -/
theorem Hosted.splices (h : e.Hosted) : e.Splices := by
  have intact := h.intact
  have orderly := h.reachable.orderly
  obtain ⟨w, self, hm⟩ := intact.whole
  -- A request is served in the same way by all means that do the same as those of the engine.
  have served {α : Type} {r : HostRequest α} (genuine : r.Genuine e.session) {fuel : Nat} {m : Means}
      (hmeans : ∀ oldest, Means.Match { Terms.own e.session.heap with oldest } m (e.evaluator fuel).means) :
      Agree (.transparent (.own e.session.heap)) nothing w e.session r.Related (r.runBy m e.session)
        (r.run (e.evaluator fuel) e.session) := by
    rw [r.run_eq]
    exact r.agree hmeans hm self intact.closed intact.free genuine
  constructor
  case mentioned =>
    intro s fuel o ho a
    obtain ⟨t, hf, ht⟩ := Eval.formWithin_identity (s := s) fuel ho a
    have stands : t.heap.embedded? s.heap.nextHandle = some (.ref o.kind a) := by
      rw [ht, Heap.embedded?_embed, if_pos rfl]
    exact ⟨s.heap.nextHandle, t, hf, Session.yields_iff.2 stands⟩
  case vouched =>
    intro s since n
    exact Session.vouchesFor_iff
  case watched =>
    intro α r genuine fuel lost
    have alike := served genuine fun oldest => intact.vigilant lost fuel oldest e.session.heap
    -- Compared with itself, the session leaves no room for a difference.
    exact alike.eq id self fun self related => related.eq self
  case noLoss =>
    intro α r genuine fuel f t failed
    have alike := served genuine fun oldest => intact.evaluator fuel oldest e.session.heap
    rw [r.run_eq] at failed
    exact alike.isLoss_eq_false id failed
  case changed =>
    intro P s t sound evolves
    exact ⟨evolves.continues, (evolves.keeps sound).imp fun _ _ => trivial⟩
  case later =>
    intro e' later
    obtain ⟨-, -, evolves⟩ := later.reaches.2.orderly orderly (frees_unguarded _ _) fun _ => id
    exact ⟨evolves.continues, (evolves.keeps orderly.sound).imp fun _ _ => trivial⟩
  case ended =>
    intro s ended fuel
    exact ⟨(e.evaluator fuel).evaluate_of_terminated ended, (e.evaluator fuel).apply_of_terminated ended⟩
  case closed => exact intact.closed.floor
  case dropped =>
    intro s closed roots n unheld v
    have unheld : .handle n ∉ s.ownRoots ++ roots := by
      rw [List.mem_append, not_or]
      exact ⟨s.handle_notMem_ownRoots, unheld⟩
    rw [Session.yields_iff, Session.yields_iff]
    exact Heap.embedded?_collect_iff_isMentioned closed unheld v

/-- An engine in use, whose function `f` mentions the atom. -/
theorem splices_furnished : ∃ e, furnished .treeWalk = .ok e ∧ e.Hosted ∧ e.Splices ∧
    (e.evaluateToText 60 "(f)").1.toOption = some "7" := by
  have reads : ((furnished .treeWalk).toOption.any fun e => (e.evaluateToText 60 "(f)").1.toOption == some "7" &&
      !e.session.terminated) = true := by
    decide +kernel
  obtain ⟨e, made⟩ : ∃ e, furnished .treeWalk = .ok e := by
    cases made : furnished .treeWalk with
    | ok e => exact ⟨e, rfl⟩
    | error stop =>
      rw [made] at reads
      cases reads
  rw [made] at reads
  obtain ⟨reads, alive⟩ := Bool.and_eq_true_iff.1 reads
  have hosted : e.Hosted := by
    obtain ⟨e₀, e₁, v, created, registered, evaluated, backend⟩ := furnished_eq made
    have lives : ((create .treeWalk {} 60 "(def a (atom 7)) (defmacro held [] (list 'deref a))").toOption.all fun e =>
        e.session.terminated == false) = true := by
      decide +kernel
    rw [created] at lives
    have begun : Serves ⟨.treeWalk, #[], .fresh {}⟩ e₀ := .create created (eq_of_beq lives)
    have same : e₀.backend = .treeWalk := by
      obtain ⟨u, t, -, rfl⟩ := create_eq created
      rfl
    have honest : IntegerModule.functions[4].Honest e₀.backend :=
      same ▸ ⟨IntegerModule.tidy _ (List.getElem_mem _), fun _ _ => IntegerModule.faithful _ (List.getElem_mem _)⟩
    have later : Later ⟨.treeWalk, #[], .fresh {}⟩ e₁ := .tail (.single begun) (.registered honest registered)
    exact ⟨{}, backend ▸ later.tail (.evaluate evaluated (by simpa using alive))⟩
  exact ⟨e, made, hosted, hosted.splices, eq_of_beq reads⟩

end Engine

end TwinLisp
