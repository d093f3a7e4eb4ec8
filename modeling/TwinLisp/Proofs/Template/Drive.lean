import TwinLisp.Proofs.Bytecode.Shadowing
import TwinLisp.Proofs.Engine.Blame
import TwinLisp.Proofs.Machine.Lending
import TwinLisp.Proofs.Template.Ground
import TwinLisp.Proofs.Transparency.Run

/-!
# Machines on a course

A machine that runs some code comes to its end with some values pushed, or it fails somewhere in the code and no
handler in there takes the failure. Functions that the code calls are run in frames above the one of the code. What
the machine holds on its operands is saved meanwhile.

## Main definitions

* `Machine.Poised`: a machine that is about to run, and whose operands are there.
* `Machine.Through`: a machine goes on inside some code.
* `Machine.Drives`: a machine gets through some code on a course.
* `Machine.Prepares`: a machine gets through the parts of a call of a core operator.

## Main statements

* `Machine.Poised.through`: a machine stays poised while it runs.
* `Machine.Drives.bind`: pieces of code are run one after another.
* `Machine.Drives.native`: a native function that makes data is called.
* `CoreOp.blames_along_code`: the machine blames an argument when it runs a call from its beginning.
-/

namespace TwinLisp

/-- What a machine runs with keeps to the policy and does the same whenever it is run. -/
structure Machine.Equipped (P : Policy) (exact : Prop) (e : Terms) (natives : NativeRunner) (back : Caller) :
    Prop where
  runs : P.Runs exact
  obedient : natives.Obedient P
  backObedient : back.Obedient P
  alike : NativeRunner.Match (.transparent e) natives natives
  backAlike : Caller.Match (.transparent e) back back

/-- A machine is about to run in a session, in which there is everything that it refers to. -/
structure Machine.Poised (P : Policy) (exact : Prop) (e : Terms) (base : Nat) (s : Session) (m : Machine) : Prop where
  sound : s.Sound P
  running : ∃ under ls L, m.Running P exact base under s ls L ∧ (exact → s.operands = under)
  corresponds : ∃ w, s.Match (.transparent e) w s ∧ m.Match w m

/-- Some values are pushed. -/
def Machine.pushAll (m : Machine) (vs : List Value) : Machine := m.withOperands (m.operands ++ vs.toArray)

namespace Machine

@[simp] theorem pushAll_nil (m : Machine) : m.pushAll [] = m := by simp [pushAll, withOperands]

theorem goto_ip (m : Machine) : m.goto m.top.ip = m := rfl

/-- Values that are pushed one after another. -/
theorem pushAll_cons (m : Machine) (i j : Nat) (v : Value) (vs : List Value) :
    (m.goto j).pushAll (v :: vs) = (((m.goto i).push v).goto j).pushAll vs := by
  simp [pushAll, push, goto, withOperands]

variable {P : Policy} {exact : Prop} {e : Terms} {base : Nat} {natives : NativeRunner} {back : Caller}
variable {s t u : Session} {m m' m'' : Machine} {I J : Machine → Prop}

/-! ### Machines stay poised -/

/-- After a turn there still is everything that the machine refers to. -/
theorem Turn.corresponds (equipped : Equipped P exact e natives back) {w : World}
    (session : s.Match (.transparent e) w s) (machine : m.Match w m) (turn : m.Turn natives back s t m') :
    ∃ w', t.Match (.transparent e) w' t ∧ m'.Match w' m' := by
  have stepped := Match.step equipped.alike equipped.backAlike session machine
  cases turn with
  | step now =>
    rw [now] at stepped
    cases stepped with
    | agree h =>
      cases h with
      | ok _ matched progress =>
        cases progress with
        | running same => exact ⟨_, matched, same⟩
  | @handled t' _ failed _ f now unwound =>
    have ordinary : f.isFatal = false := by
      by_contra fatal
      obtain ⟨g, s', -, -, left⟩ := unwindTo_fatal failed.handlers failed (by simpa using fatal) t'
      cases unwound.symm.trans left
    rw [now] at stepped
    cases stepped with
    | agree h =>
      cases h with
      | ok _ matched progress =>
        cases progress with
        | failed same fault =>
          have resumed := (same.unwind fault).agree (K := nothing) matched
          rw [unwound] at resumed
          cases resumed with
          | ok _ matched same => exact ⟨_, matched, same⟩
    | fatal fatal _ => cases ordinary.symm.trans fatal
    | fatalRight _ fatal => cases ordinary.symm.trans fatal

namespace Poised

/-- What has been on the operands all the time has been saved. -/
theorem saves (before : Poised P exact e base s m) (after : Poised P exact e base t m')
    (evolves : Session.Evolves P s t) {vs : List Value} (there : ∀ v ∈ vs, v ∈ m'.operands) : s.Saves vs t := by
  obtain ⟨w, session, machine⟩ := after.corresponds
  refine Session.saves_of_match before.sound.heap (evolves.keeps before.sound) session fun v hv => ?_
  obtain ⟨i, hi, rfl⟩ := List.getElem_of_mem (Array.mem_toList_iff.2 (there v hv))
  exact machine.operands.get hi hi

/-- A function that has been on the operands all the time is what it was. -/
theorem function (before : Poised P exact e base s m) (after : Poised P exact e base t m')
    (evolves : Session.Evolves P s t) {a : Address} {f : Function} (there : .ref .function a ∈ m'.operands)
    (hf : s.heap.get? a = some (.function f)) : t.heap.get? a = some (.function f) := by
  have saves : s.Saves [.ref .function a] t := before.saves after evolves fun v hv => by
    obtain rfl := List.mem_singleton.1 hv
    exact there
  exact saves.data (List.mem_singleton_self _) .self hf (Object.function_ne_atom f)

theorem turn (equipped : Equipped P exact e natives back) (h : Poised P exact e base s m)
    (turn : m.Turn natives back s t m') : Poised P exact e base t m' ∧ Session.Evolves P s t := by
  obtain ⟨under, ls, L, running, lent⟩ := h.running
  obtain ⟨w, session, machine⟩ := h.corresponds
  obtain ⟨drifts, ls', L', goes⟩ :=
    running.steps equipped.runs equipped.obedient equipped.backObedient h.sound lent (Steps.refl.turn turn)
  have lent (e : exact) := (drifts.operands (equipped.runs.restores.2 e)).trans (lent e)
  exact ⟨⟨h.sound.evolves drifts.evolves, ⟨under, ls', L', goes, lent⟩, turn.corresponds equipped session machine⟩,
    drifts.evolves⟩

end Poised

/-- Before a call there may be a collection. What is on the operands is saved. -/
theorem Poised.collects (h : Poised P exact e base s m) : ∃ t, Eval.maybeCollect (fun _ => m.roots) s = .ok () t ∧
    s.Idles t ∧ (∀ vs, (∀ v ∈ vs, v ∈ m.operands) → s.Saves vs t) ∧
      (s.Supplies Scopes.root → t.Supplies Scopes.root) := by
  obtain ⟨w, session, machine⟩ := h.corresponds
  obtain ⟨t, ran, leads⟩ := Obeys.maybeCollect_eq (fun _ => m.roots) h.sound
  have agree : Agree (.transparent e) (· ∈ m.roots) w s Done (Eval.maybeCollect (fun _ => m.roots) s)
      (Eval.maybeCollect (fun _ => m.roots) s) := .maybeCollect session (fun _ => id) fun _ => rfl
  rw [ran] at agree
  cases agree with
  | ok preserved matched _ =>
    have keeps := leads.evolves.keeps h.sound
    have operands := (machine.preserved preserved fun _ => id).operands
    have idles : s.Idles t := by
      have collect : Eval.maybeCollect (fun _ => m.roots) s = ((if s.wantsCollection = true then
        set (s.collectGarbage m.roots).1 else Pure.pure PUnit.unit : Eval PUnit) s) := rfl
      rw [collect] at ran
      split at ran
      · cases ran
        exact .single (.collect _)
      · cases ran
        exact .refl
    refine ⟨t, ran, idles, fun vs there => ?_, fun supplies => supplies.idles idles keeps matched⟩
    refine Session.saves_of_match h.sound.heap keeps matched fun v hv => ?_
    obtain ⟨i, hi, rfl⟩ := List.getElem_of_mem (Array.mem_toList_iff.2 (there v hv))
    exact operands.get hi hi

/-! ### Inside some code -/

/-- A machine goes on, and it is inside some code all the way. -/
inductive Through (natives : NativeRunner) (back : Caller) (I : Machine → Prop) (s : Session) (m : Machine) :
    Session → Machine → Prop where
  | refl : Through natives back I s m s m
  | turn {t u : Session} {m' m'' : Machine} (before : Through natives back I s m t m') (inside : I m')
    (turn : m'.Turn natives back t u m'') : Through natives back I s m u m''

namespace Through

theorem single (inside : I m) (turn : m.Turn natives back s t m') : Through natives back I s m t m' :=
  .turn .refl inside turn

theorem trans (h : Through natives back I s m t m') (h' : Through natives back I t m' u m'') :
    Through natives back I s m u m'' := by
  induction h' with
  | refl => exact h
  | turn _ inside turn ih => exact ih.turn inside turn

theorem weaken (h : Through natives back I s m t m') (within : ∀ m, I m → J m) : Through natives back J s m t m' := by
  induction h with
  | refl => exact .refl
  | turn _ inside turn ih => exact ih.turn (within _ inside) turn

end Through

/-- **A machine stays poised while it runs.** -/
theorem Poised.through (equipped : Equipped P exact e natives back) (h : Poised P exact e base s m)
    (path : Through natives back I s m t m') : Poised P exact e base t m' ∧ Session.Evolves P s t := by
  induction path with
  | refl => exact ⟨h, .refl⟩
  | turn _ _ turn ih =>
    obtain ⟨there, evolves⟩ := ih
    obtain ⟨poised, further⟩ := there.turn equipped turn
    exact ⟨poised, Relation.ReflTransGen.trans evolves further⟩

/-- Meanwhile the operands of the machines that wait are as they were. -/
theorem Poised.operands (equipped : Equipped P exact e natives back) (h : Poised P exact e base s m)
    (path : Through natives back I s m t m') : t.operands = s.operands := by
  induction path with
  | refl => rfl
  | turn before _ turn ih =>
    obtain ⟨poised, -⟩ := h.through equipped before
    obtain ⟨under, ls, L, running, -⟩ := poised.running
    exact (running.operands_of_turn equipped.runs equipped.obedient equipped.backObedient poised.sound turn).trans ih

/-! ### Machines on a course -/

open Template (Course Ending)

/-- Inside some code, the machine comes to an end that depends on the value, with the functions for templates at
hand; or it fails, and no handler in the code takes the failure. `hs` are the handlers outside. -/
inductive Comes (natives : NativeRunner) (back : Caller) (I : Machine → Prop) (hs : List Handler) {α : Type}
    (ends : α → Machine) (s : Session) (m : Machine) : Ending α → Prop where
  | value {a : α} {t : Session} (path : Through natives back I s m t (ends a))
    (supplies : t.Supplies Scopes.root) : Comes natives back I hs ends s m (.value a t)
  | failure {t u : Session} {m' m'' : Machine} {f : Fault} (path : Through natives back I s m t m') (inside : I m')
    (now : m'.step natives back t = .ok (.failed m'' f) u) (own : m'.handlers = hs ∨ f.isFatal = true) :
    Comes natives back I hs ends s m (.failure f.cause)

/-- The machine gets through some code in a way that the course allows for. -/
def Drives (natives : NativeRunner) (back : Caller) (I : Machine → Prop) (hs : List Handler) {α : Type}
    (ends : α → Machine) (x : Course α) (s : Session) (m : Machine) : Prop :=
  x s .unsettled ∨ ∃ r, x s r ∧ m.Comes natives back I hs ends s r

namespace Drives

variable {α β : Type} {hs : List Handler} {ends : α → Machine} {x y : Course α}

theorem pure {a : α} (there : ends a = m) (supplies : s.Supplies Scopes.root) :
    Drives natives back I hs ends (Pure.pure a) s m := by
  refine .inr ⟨_, rfl, .value ?_ supplies⟩
  rw [there]
  exact .refl

theorem le (h : Drives natives back I hs ends x s m) (le : ∀ r, x s r → y s r) :
    Drives natives back I hs ends y s m := by
  obtain unsettled | ⟨r, taken, comes⟩ := h
  · exact .inl (le _ unsettled)
  · exact .inr ⟨r, le r taken, comes⟩

theorem weaken (h : Drives natives back I hs ends x s m) (within : ∀ m, I m → J m) :
    Drives natives back J hs ends x s m := by
  obtain unsettled | ⟨r, taken, comes⟩ := h
  · exact .inl unsettled
  · cases comes with
    | value path supplies => exact .inr ⟨_, taken, .value (path.weaken within) supplies⟩
    | failure path inside now own => exact .inr ⟨_, taken, .failure (path.weaken within) (within _ inside) now own⟩

/-- Pieces of code are run one after another. -/
theorem bind {f : α → Course β} {ends' : β → Machine} (h : Drives natives back I hs ends x s m)
    (hf : ∀ a t, x s (.value a t) → Through natives back I s m t (ends a) → t.Supplies Scopes.root →
      Drives natives back I hs ends' (f a) t (ends a)) : Drives natives back I hs ends' (x >>= f) s m := by
  obtain unsettled | ⟨r, taken, comes⟩ := h
  · exact .inl (.unsettled unsettled)
  · cases comes with
    | failure path inside now own => exact .inr ⟨_, .failure taken, .failure path inside now own⟩
    | @value a t path supplies =>
      obtain unsettled | ⟨r, later, comes⟩ := hf a t taken path supplies
      · exact .inl (.value taken unsettled)
      · cases comes with
        | value further supplies => exact .inr ⟨_, .value taken later, .value (path.trans further) supplies⟩
        | failure further inside now own =>
          exact .inr ⟨_, .value taken later, .failure (path.trans further) inside now own⟩

theorem saving {vs : List Value} (h : Drives natives back I hs ends x s m)
    (saves : ∀ a t, Through natives back I s m t (ends a) → s.Saves vs t) :
    Drives natives back I hs ends (Course.saving vs x) s m := by
  obtain unsettled | ⟨r, taken, comes⟩ := h
  · exact .inl ⟨unsettled, nofun⟩
  · refine .inr ⟨r, ⟨taken, ?_⟩, comes⟩
    rintro a t rfl
    cases comes with
    | value path _ => exact saves a t path

/-- An instruction that leaves the session alone. -/
theorem step (inside : I m) (now : m.step natives back s = .ok (.running m') s)
    (h : Drives natives back I hs ends x s m') : Drives natives back I hs ends x s m := by
  have path : Through natives back I s m s m' := .single inside (.step now)
  obtain unsettled | ⟨r, taken, comes⟩ := h
  · exact .inl unsettled
  · cases comes with
    | value further supplies => exact .inr ⟨_, taken, .value (path.trans further) supplies⟩
    | failure further inside now own => exact .inr ⟨_, taken, .failure (path.trans further) inside now own⟩

end Drives

/-! ### Instructions -/

theorem step_of_fetched {i : Instruction} (fetched : m.top.code.code[m.top.ip]? = some i) :
    m.step natives back s = (m.goto (m.top.ip + 1)).execute natives back i s := by
  unfold step
  rw [fetched]

theorem step_const {i : Nat} {v : Value} (fetched : m.top.code.code[m.top.ip]? = some (.const i))
    (constant : m.top.code.constants[i]? = some v) :
    m.step natives back s = .ok (.running ((m.goto (m.top.ip + 1)).push v)) s := by
  rw [step_of_fetched fetched, execute]
  have found : (m.goto (m.top.ip + 1)).constant? i = some v := constant
  rw [found]
  rfl

theorem step_loadGlobal {i : Nat} {x : Symbol} {v : Value}
    (fetched : m.top.code.code[m.top.ip]? = some (.loadGlobal i))
    (constant : m.top.code.constants[i]? = some (.symbol x)) (bound : s.global? x = some v) :
    m.step natives back s = .ok (.running ((m.goto (m.top.ip + 1)).push v)) s := by
  rw [step_of_fetched fetched, execute, loadGlobal]
  have found : (m.goto (m.top.ip + 1)).constant? i = some (.symbol x) := constant
  rw [found]
  dsimp only
  rw [Eval.get_bind, bound]
  rfl

/-- What is lent comes back as it was. -/
theorem lending_of_ok {x : Eval Value} {v : Value}
    (h : x { s with operands := m.operands } = .ok v { t with operands := m.operands })
    (same : t.operands = s.operands) : m.lending x s = .ok (.running (m.push v)) t := by
  have lent : Eval.lending m.operands x s = .ok (m.operands, .ok v) t := by
    unfold Eval.lending
    rw [h, ← same]
  unfold lending
  rw [Eval.bind_eq_of_ok lent]
  rfl

theorem lending_of_fault {x : Eval Value} {f : Fault}
    (h : x { s with operands := m.operands } = .error (.fault f) t) :
    ∃ m' t', m.lending x s = .ok (.failed m' f) t' := by
  have lent : Eval.lending m.operands x s = .ok (t.operands, .error f) { t with operands := s.operands } := by
    unfold Eval.lending
    rw [h]
  unfold lending
  exact ⟨_, _, Eval.bind_eq_of_ok lent⟩

/-- A call of a native function, after a collection. -/
theorem step_native {site argc : Nat} (fetched : m.top.code.code[m.top.ip]? = some (.call argc site))
    {ls : List Location} (found : m.site? site = some ls) {below : Array Value} {a : Address} {f : Function}
    {n : Native} {vs : List Value} (count : argc = vs.length)
    (holds : m.operands = below ++ (.ref .function a :: vs).toArray)
    (collected : Eval.maybeCollect (fun _ => m.roots) s = .ok () t)
    (hf : t.heap.get? a = some (.function f)) (body : f.body = .native n) :
    m.step natives back s = ((m.goto (m.top.ip + 1)).withOperands below).lending
      (Eval.attributed (ls.head?.getD .unknown) (ls.drop 1) (natives back n vs)) t := by
  subst count
  rw [step_of_fetched fetched]
  have called : (m.goto (m.top.ip + 1)).execute natives back (.call vs.length site) s =
      (m.goto (m.top.ip + 1)).call natives back vs.length site t := Eval.bind_eq_of_ok collected
  rw [called, call_native (m := m.goto (m.top.ip + 1)) natives back found holds hf body]

/-- **A native function that makes data is called**: it makes them, after a collection that saves the operands. -/
theorem Drives.native {hs : List Handler} {ends : Value → Machine} (h : Poised P exact e base s m) (inside : I m)
    (own : m.handlers = hs) {site argc : Nat} (fetched : m.top.code.code[m.top.ip]? = some (.call argc site))
    {ls : List Location} (found : m.site? site = some ls) {below : Array Value} {a : Address} {f : Function}
    {n : Native} {vs ws : List Value} (count : argc = vs.length)
    (holds : m.operands = below ++ (.ref .function a :: vs).toArray)
    (hf : s.heap.get? a = some (.function f)) (body : f.body = .native n) (among : ∀ w ∈ ws, w ∈ vs)
    {y : Eval Value} (makes : Eval.MakesData y)
    (imitates : ∀ t l ls, s.Saves vs t → Eval.Imitates (Eval.attributed l ls (natives back n vs)) y t)
    (supplies : s.Supplies Scopes.root)
    (there : ∀ v, ends v = ((m.goto (m.top.ip + 1)).withOperands below).push v) :
    Drives natives back I hs ends (Course.pause ws >>= fun _ => Course.act y) s m := by
  -- The collection in front of the call is the pause: the operands are its roots.
  obtain ⟨t, collected, idles, saves, supplied⟩ := h.collects
  have operand {v : Value} (hv : v ∈ Value.ref .function a :: vs) : v ∈ m.operands := by
    rw [holds]
    exact Array.mem_append_right _ (by simpa using hv)
  have callee : t.heap.get? a = some (.function f) :=
    (saves [.ref .function a] (by simpa using operand (List.mem_cons_self ..))).data (List.mem_singleton_self _) .self
      hf nofun
  have saved := saves vs fun v hv => operand (List.mem_cons_of_mem _ hv)
  have paused : Course.pause ws s (.value () t) :=
    .saved idles (saved.within fun w hw => ⟨w, among w hw, .self⟩)
  have stepped : m.step natives back s = ((m.goto (m.top.ip + 1)).withOperands below).lending
      (Eval.attributed (ls.head?.getD .unknown) (ls.drop 1) (natives back n vs)) t :=
    step_native fetched found count holds collected callee body
  obtain ⟨ok, failing⟩ := (imitates t (ls.head?.getD .unknown) (ls.drop 1) saved).lent makes saved.after below
  cases ran : y t with
  | ok v u =>
    refine .inr ⟨.value v u, .value paused (congrArg Ending.of ran).symm, .value (.single inside (.step ?_)) ?_⟩
    · obtain ⟨made, same⟩ := ok v u ran
      rw [stepped, there]
      exact lending_of_ok made same
    · exact (supplied supplies).gains (makes.value saved.after ran).1
  | error e u =>
    cases e with
    | fault g =>
      obtain ⟨g', u', failed, cause⟩ := failing g u ran
      have taken : Course.act y t (.failure g'.cause) := by
        rw [cause]
        exact (congrArg Ending.of ran).symm
      obtain ⟨m', t', left⟩ := lending_of_fault (m := (m.goto (m.top.ip + 1)).withOperands below) failed
      exact .inr ⟨_, .value paused taken, .failure .refl inside (stepped.trans left) (.inl own)⟩
    | outOfFuel => exact absurd ran (makes.settled saved.after)

/-! ### Calls of core operators -/

variable {c : Compiler} {p : CompilePlace} {head : Form} {args fs : List Form} {vs : List Value}
variable {a b : Assembly} {u v : Session} {code : Code}

/-- The machine stands at the beginning of some code that was compiled for a place, with the call sites that were
assembled by then. -/
structure Begins (m : Machine) (p : CompilePlace) (code : Code) (a : Assembly) : Prop where
  ip : m.top.ip = p.offset
  code {k : Nat} {e : Instruction × Location} : code[k]? = some e → m.top.code.code[p.offset + k]? = some e.1
  sites {k : Nat} {ls : List Location} : a.tables.sites[k]? = some ls → m.top.code.sites[k]? = some ls

/-- The machine gets through the code of some forms, one after another, and pushes their values. -/
inductive Passes (natives : NativeRunner) (back : Caller) (c : Compiler) :
    CompilePlace → List Form → Assembly → Session → Session → Machine → List Value → Session → Prop where
  | nil {p : CompilePlace} {a : Assembly} {u s : Session} {m : Machine} : Passes natives back c p [] a u s m [] s
  | cons {p : CompilePlace} {f : Form} {fs : List Form} {a b : Assembly} {u v s t t' : Session} {m : Machine}
      {code : Code} {w : Value} {ws : List Value} (compiled : c p f a u = .ok (code, b) v)
      (path : Through natives back (fun _ => True) s m t ((m.goto (p.offset + code.length)).push w))
      (rest : Passes natives back c (p.after code) fs b v t ((m.goto (p.offset + code.length)).push w) ws t') :
      Passes natives back c p (f :: fs) a u s m (w :: ws) t'

/-- So it comes to the end of the code. -/
theorem Passes.through (h : Passes natives back c p fs a u s m vs t) (here : m.top.ip = p.offset)
    (compiled : c.values p fs a u = .ok (code, b) v) :
    Through natives back (fun _ => True) s m t ((m.goto (p.offset + code.length)).pushAll vs) := by
  -- Along the forms: behind each piece of code the machine stands where the next one begins.
  induction h generalizing code with
  | @nil p _ _ _ m =>
    cases compiled
    change Through natives back _ _ m _ ((m.goto p.offset).pushAll [])
    rw [← here, goto_ip, pushAll_nil]
    exact .refl
  | @cons p f _ _ _ _ _ _ _ _ m code₁ w ws first path _ ih =>
    obtain ⟨_, _, _, head, more⟩ := Assemble.of_bind_eq_ok compiled
    obtain ⟨code₂, _, _, tail, last⟩ := Assemble.of_bind_eq_ok more
    cases first.symm.trans head
    cases last
    rw [List.length_append, ← Nat.add_assoc, pushAll_cons _ (p.offset + code₁.length)]
    exact path.trans (ih rfl tail)

/-- The machine gets through the code of the parts of a call of a core operator: what is called is the built-in
function, unless the operator is applied in line, and the arguments have the values `vs`. -/
inductive Prepares (natives : NativeRunner) (back : Caller) (c : Compiler) (p : CompilePlace) (op : CoreOp)
    (head : Form) (args : List Form) (a : Assembly) (u s : Session) (m : Machine) (vs : List Value) (t : Session) :
    Prop where
  | called {x : Address} {f : Function} {code : Code} {a₁ a₂ : Assembly} {u₁ u₂ s₁ : Session}
      (chosen : Compiler.operator? p head args a u = .ok (none, a₁) u₁)
      (compiled : c p head a₁ u₁ = .ok (code, a₂) u₂)
      (path : Through natives back (fun _ => True) s m s₁
        ((m.goto (p.offset + code.length)).push (.ref .function x)))
      (callee : s₁.heap.get? x = some (.function f)) (body : f.body = .native (.builtin op.builtin))
      (rest : Passes natives back c (p.after code) args a₂ u₂ s₁
        ((m.goto (p.offset + code.length)).push (.ref .function x)) vs t)
  | inlined {a₁ : Assembly} {u₁ : Session} (chosen : Compiler.operator? p head args a u = .ok (some op, a₁) u₁)
      (rest : Passes natives back c p args a₁ u₁ s m vs t)

end Machine

/-- **The machine blames the first argument that cannot be taken in** when it runs a call of a core operator from its
beginning. It comes through the code of the parts to the instruction at the end of the call, which gives the answer
that the evaluators agree on, and if that is a value then the machine stands behind the code with the value pushed. -/
theorem CoreOp.blames_along_code (op : CoreOp) {head : Form} {args : List Form} {l : Location}
    (known : l.isKnown = true) (placed : ∀ a ∈ args, a.location.isKnown = true)
    (plain : head.symbolName?.bind SpecialForm.ofName? = none) (many : 2 ≤ args.length) {vs : List Value}
    (evaluated : vs.length = args.length) :
    ∃ answer, op.Blames (.atArgument l (args.map Form.location)) none 0 vs answer ∧
      ∀ {P : Policy} {exact : Prop} {e : Terms} {base : Nat} {hosts : HostTable} {back : Caller},
        Machine.Equipped P exact e (Eval.runNative hosts) back →
          ∀ {levels : Nat} {p : CompilePlace} {a b : Assembly} {code : Code} {u v s t : Session} {m : Machine},
            Compiler.within (levels + 1) p (.group .list (head :: args) l) a u = .ok (code, b) v →
              Machine.Poised P exact e base s m → m.Begins p code b →
                Machine.Prepares (Eval.runNative hosts) back (Compiler.within levels) (p.within l) op head args a u
                  s m vs t →
                ∃ (m' : Machine) (t' : Session),
                  Machine.Through (Eval.runNative hosts) back (fun _ => True) s m t m' ∧
                  m'.step (Eval.runNative hosts) back t =
                    .ok ((m.goto (p.offset + code.length)).settled answer) t' := by
  have sites : ∀ k ∈ args.map Form.location, k.isKnown = true := List.forall_mem_map.2 placed
  have places : vs.length = (args.map Form.location).length := by simpa using evaluated
  obtain ⟨answer, blames, ran⟩ := op.blames_attributed known sites (by omega) places
  refine ⟨answer, blames, ?_⟩
  intro P exact e base hosts back equipped levels p a b code u v s t m compiled poised begins prepared
  have site := Compiler.site_within p known placed
  change (Compiler.within levels).step p (.group .list (head :: args) l) a u = _ at compiled
  rw [Compiler.step_plain l plain] at compiled
  -- What the compiler chose decides which instruction stands at the end.
  cases prepared with
  | @called x f code₁ a₁ a₂ u₁ u₂ s₁ chosen first path callee body rest =>
    obtain ⟨_, i, _, _, rfl, found, parts⟩ := Compiler.call_parts ((Eval.bind_eq_of_ok chosen).symm.trans compiled)
    obtain ⟨_, _, _, head, more⟩ := Assemble.of_bind_eq_ok parts
    obtain ⟨code₂, _, _, tail, last⟩ := Assemble.of_bind_eq_ok more
    cases first.symm.trans head
    cases last
    have later := rest.through rfl tail
    have there : (m.goto (p.offset + (code₁ ++ code₂).length)).pushAll (.ref .function x :: vs) =
        (((m.goto (p.offset + code₁.length)).push (.ref .function x)).goto
          (p.offset + code₁.length + code₂.length)).pushAll vs := by
      rw [List.length_append, ← Nat.add_assoc, Machine.pushAll_cons]
    -- The function lies beneath the arguments all the time, so it is what it was when it was pushed.
    have function : t.heap.get? x = some (.function f) := by
      obtain ⟨before, -⟩ := poised.through equipped path
      obtain ⟨after, evolves⟩ := before.through equipped later
      exact before.function after evolves (Array.mem_append_left _ (Array.mem_push_self ..)) callee
    obtain ⟨t', stepped⟩ := Machine.step_called
      (m := (m.goto (p.offset + (code₁ ++ code₂).length)).pushAll (.ref .function x :: vs)) hosts back
      (evaluated ▸ begins.code (List.getElem?_concat_length ..)) ((begins.sites found).trans (congrArg some site)) rfl
      function body (ran hosts back)
    refine ⟨_, t', there ▸ path.trans later, stepped.trans ?_⟩
    rw [@List.length_append _ _ [_]]
    rfl
  | @inlined a₁ u₁ chosen rest =>
    obtain ⟨front, i, _, _, rfl, found, parts⟩ :=
      Compiler.inlined_parts ((Eval.bind_eq_of_ok chosen).symm.trans compiled)
    have stepped := Machine.step_inlined (m := (m.goto (p.offset + front.length)).pushAll vs) (s := t) hosts back
      (begins.code (List.getElem?_concat_length ..)) ((begins.sites found).trans (congrArg some site)) rfl
      (evaluated.trans (Compiler.two_of_operator chosen)) (ran hosts back)
    refine ⟨_, t, rest.through begins.ip parts, stepped.trans ?_⟩
    rw [List.length_append]
    rfl

end TwinLisp
