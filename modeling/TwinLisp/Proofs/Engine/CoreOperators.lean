import TwinLisp.Proofs.Engine.Reachable
import TwinLisp.Proofs.Machine.Inline

/-!
# Core operators stay what they are

Setting up a session binds each core operator to its built-in function. From then on its name is bound to
that function or to a macro, whatever is evaluated: a definition of the name does not pass the check. Hosts
can bind it to anything, which is left out here.

## Main definitions

* `Guards`: what is guarded after some built-in functions were bound.
* `Engine.Prepared`: engines whose hosts leave core operators alone.

## Main statements

* `Engine.create_guards`: an engine is made with the names of core operators guarded.
* `Engine.Prepared.core_inline`: so the instruction of a core operator does what calling it does.
-/

namespace TwinLisp

/-! ### Setting up -/

/-- What may happen while a session is set up. Only native functions are made. -/
def Policy.natives (guarded : Symbol → Option Native) : Policy where
  admits f := ∃ n, f.body = .native n
  guarded
  mayFail _ := True
  native h := ⟨_, h⟩
  ordinary _ := trivial

namespace Session

variable {P : Policy} {s t : Session} {guarded : Symbol → Option Native}

/-- A session with native functions only keeps to any policy. -/
theorem Sound.of_natives (hq : P.quiet → 0 < s.inhibited) (hf : P.frozen = 0)
    (h : s.Sound (Policy.natives P.guarded)) :
    s.Sound P where
  heap := h.heap
  functions hf := by
    obtain ⟨n, hn⟩ := h.functions hf
    exact P.native hn
  names := h.names
  root := h.root
  inhibited := hq
  scopes := hf ▸ Nat.zero_le _

/-- One more name is guarded, which is bound to what it stands for. -/
theorem Sound.guard (h : s.Sound (Policy.natives guarded)) {text : String} {name : Symbol} {n : Native}
    {v : Value} (core : (CoreOp.ofName? text).isSome = true) (found : s.symbols.find? text = some name)
    (bound : ∀ scope, s.scopes.all[Scopes.root]? = some scope → scope.bindings[name.index]? = some v)
    (denotes : s.Denotes v n) :
    s.Sound (Policy.natives fun x => if x = name then some n else guarded x) where
  heap := h.heap
  functions := h.functions
  names {x m} hm := by
    change (if x = name then some n else guarded x) = some m at hm
    split at hm
    · next e => exact ⟨text, core, e ▸ found⟩
    · exact h.names hm
  inhibited := h.inhibited
  scopes := h.scopes
  root := by
    obtain ⟨scope, hr, kept⟩ := h.root
    refine ⟨scope, hr, fun {x m} hm => ?_⟩
    change (if x = name then some n else guarded x) = some m at hm
    split at hm
    · next e =>
      cases hm
      exact ⟨v, e ▸ bound scope hr, denotes⟩
    · exact kept hm

end Session

/-- A native function was bound to its name. -/
theorem Eval.defineNative_ok {name : String} {n : Native} {s t : Session} {u : Unit}
    (h : Eval.defineNative name n s = .ok u t) : ∃ v s',
      Eval.new (.function ⟨some (s.symbols.intern name).2, false, .native n⟩)
        { s with symbols := (s.symbols.intern name).1 } = .ok v s' ∧
      t = { s' with scopes := s'.scopes.define Scopes.root (s.symbols.intern name).2 v } := by
  have interned : Eval.intern name s =
      .ok (s.symbols.intern name).2 { s with symbols := (s.symbols.intern name).1 } := rfl
  unfold Eval.defineNative at h
  rw [Eval.bind_eq_of_ok interned] at h
  cases made : Eval.new (.function ⟨some (s.symbols.intern name).2, false, .native n⟩)
      { s with symbols := (s.symbols.intern name).1 } with
  | ok v s' =>
    rw [Eval.bind_eq_of_ok made] at h
    cases h
    exact ⟨v, s', rfl, rfl⟩
  | error e s' =>
    rw [Eval.bind_eq_of_error made] at h
    cases h

/-- The core operator that a built-in function is. -/
def Builtin.core? : Builtin → Option CoreOp
  | .add => some (.arith .add)
  | .sub => some (.arith .sub)
  | .mul => some (.arith .mul)
  | .div => some (.arith .div)
  | .lt => some (.compare .lt)
  | .gt => some (.compare .gt)
  | .le => some (.compare .le)
  | .ge => some (.compare .ge)
  | _ => none

theorem Builtin.ofName?_name (b : Builtin) : CoreOp.ofName? b.name = b.core? := by
  cases b <;> rfl

theorem Builtin.eq_of_core? {b : Builtin} {op : CoreOp} (h : b.core? = some op) : b = op.builtin := by
  unfold core? at h
  split at h <;> cases h <;> rfl

/-- Only one built-in function has the name of a core operator. -/
theorem CoreOp.builtin_of_name {op : CoreOp} {b : Builtin} (h : b.name = op.name) : b = op.builtin := by
  have core := b.ofName?_name
  rw [h, op.ofName?_name] at core
  exact Builtin.eq_of_core? core.symm

/-- The names of the core operators among some built-in functions are guarded, and no others. -/
structure Guards (guarded : Symbol → Option Native) (bs : List Builtin) (s : Session) : Prop where
  sound : s.Sound (Policy.natives guarded)
  only {name : Symbol} {n : Native} : guarded name = some n →
    ∃ op : CoreOp, n = .builtin op.builtin ∧ s.symbols.find? op.name = some name
  all (op : CoreOp) : op.builtin ∈ bs →
    ∃ name, s.symbols.find? op.name = some name ∧ guarded name = some (.builtin op.builtin)

namespace Guards

variable {guarded : Symbol → Option Native} {bs : List Builtin} {s t : Session}

/-- Guards are kept by all changes. -/
theorem evolves (h : Guards guarded bs s) (ht : Session.Evolves (Policy.natives guarded) s t) :
    Guards guarded bs t where
  sound := h.sound.evolves ht
  only hn := by
    obtain ⟨op, hop, found⟩ := h.only hn
    exact ⟨op, hop, ht.find? found⟩
  all op hop := by
    obtain ⟨name, found, hn⟩ := h.all op hop
    exact ⟨name, ht.find? found, hn⟩

/-- What is guarded under the name of a built-in function is that function. -/
theorem guarded_name (h : Guards guarded bs s) {b : Builtin} {name : Symbol} {n : Native}
    (found : s.symbols.find? b.name = some name) (hn : guarded name = some n) :
    n = .builtin b ∧ b.core?.isSome = true := by
  obtain ⟨op, rfl, hop⟩ := h.only hn
  have names : b.name = op.name :=
    (SymbolTable.name_of_find? found).symm.trans (SymbolTable.name_of_find? hop)
  obtain rfl := CoreOp.builtin_of_name names
  exact ⟨rfl, by rw [← Builtin.ofName?_name, names, op.ofName?_name]; rfl⟩

/-- **A built-in function was bound**, and is guarded if it is a core operator. -/
theorem defineNative (h : Guards guarded bs s) (b : Builtin) {u : Unit}
    (defined : Eval.defineNative b.name (.builtin b) s = .ok u t) :
    ∃ guarded', Guards guarded' (b :: bs) t := by
  obtain ⟨v, s', made, rfl⟩ := Eval.defineNative_ok defined
  have before := h.evolves (.single (.intern b.name))
  have found : (s.symbols.intern b.name).1.find? b.name = some (s.symbols.intern b.name).2 :=
    s.symbols.find?_intern b.name
  generalize (s.symbols.intern b.name).2 = name at made found
  change SymbolTable.find? (Session.symbols { s with symbols := (s.symbols.intern b.name).1 }) b.name =
    some name at found
  generalize { s with symbols := (s.symbols.intern b.name).1 } = s₁ at made before found
  have ends := Obeys.new (P := Policy.natives guarded) (o := .function ⟨some name, false, .native (.builtin b)⟩)
    (fun f e => by cases e; exact ⟨_, rfl⟩) s₁ before.sound
  rw [made] at ends
  obtain ⟨a, rfl, ha⟩ := Obeys.new_eq before.sound.heap made
  have denotes : s'.Denotes (.ref .function a) (.builtin b) := ⟨a, _, rfl, ha, .inr rfl⟩
  have ready := before.evolves ends.1.evolves
  have found := ends.1.evolves.find? found
  have bound := ready.evolves (.single (.defineGlobal fun n hn => (ready.guarded_name found hn).1 ▸ denotes))
  cases core : b.core? with
  | none =>
    refine ⟨guarded, bound.sound, bound.only, fun op hop => ?_⟩
    rcases List.mem_cons.1 hop with e | hop
    · rw [← e, ← Builtin.ofName?_name, op.name_builtin, op.ofName?_name] at core
      cases core
    · exact bound.all op hop
  | some op =>
    obtain rfl := Builtin.eq_of_core? core
    have named : (CoreOp.ofName? op.builtin.name).isSome = true := by rw [Builtin.ofName?_name, core]; rfl
    obtain ⟨scope, root, -⟩ := ready.sound.root
    refine ⟨_, bound.sound.guard named found (fun other hr => ?_) denotes, fun {x n} hn => ?_, fun op' hop => ?_⟩
    · simp only [Scopes.define, Array.getElem?_modify, root, if_true, Option.map_some, Option.some.injEq] at hr
      rw [← hr]
      simp
    · split at hn
      · next e =>
        cases hn
        exact ⟨op, rfl, by rw [e, ← op.name_builtin]; exact found⟩
      · exact bound.only hn
    · by_cases e : op'.builtin = op.builtin
      · refine ⟨name, ?_, by rw [if_pos rfl, e]⟩
        rw [← op'.name_builtin, e]
        exact found
      · obtain ⟨name', found', hn⟩ := bound.all op' ((List.mem_cons.1 hop).resolve_left e)
        refine ⟨name', found', ?_⟩
        split
        · next same =>
          subst same
          exact congrArg some (ready.guarded_name found hn).1.symm
        · exact hn

/-- Built-in functions were bound one after the other. -/
theorem defineAll {more : List Builtin} (h : Guards guarded bs s) {u : Unit}
    (defined : more.forM (fun b => Eval.defineNative b.name (.builtin b)) s = .ok u t) :
    ∃ guarded', Guards guarded' (more.reverse ++ bs) t := by
  induction more generalizing guarded bs s with
  | nil =>
    cases defined
    exact ⟨guarded, h⟩
  | cons b more ih =>
    change (Eval.defineNative b.name (.builtin b) >>= fun _ =>
      more.forM fun b => Eval.defineNative b.name (.builtin b)) s = _ at defined
    cases first : Eval.defineNative b.name (.builtin b) s with
    | ok u s' =>
      rw [Eval.bind_eq_of_ok first] at defined
      obtain ⟨guarded', h'⟩ := h.defineNative b first
      obtain ⟨guarded'', h''⟩ := ih h' defined
      exact ⟨guarded'', by simpa using h''⟩
    | error e s' =>
      rw [Eval.bind_eq_of_error first] at defined
      cases defined

end Guards

namespace Engine

variable {e : Engine}

/-- **An engine is made with all core operators guarded.** -/
theorem create_guards {backend : Backend} {limits : Limits} {fuel : Nat}
    {prelude : String} (h : Engine.create backend limits fuel prelude = .ok e) : e.backend = backend ∧
      ∃ guarded, e.Orderly guarded ∧ ∀ op : CoreOp, ∃ name,
        e.session.symbols.find? op.name = some name ∧ guarded name = some (.builtin op.builtin) := by
  obtain ⟨u, t, started, rfl⟩ := create_eq h
  refine ⟨rfl, ?_⟩
  unfold Evaluator.start at started
  have fresh : (Session.fresh limits).Sound (Policy.natives unguarded) :=
    Session.sound_fresh (fun _ => rfl) id rfl limits
  have free : (Policy.natives unguarded).Frees fun _ => True := fun _ _ => .inr fun _ => rfl
  have leads := Obeys.defineBuiltins free (fun _ => trivial) _ fresh
  cases bound : Eval.defineBuiltins (Session.fresh limits) with
  | error stop s =>
    rw [Eval.bind_eq_of_error bound] at started
    cases started
  | ok v s =>
    rw [bound] at leads
    rw [Eval.bind_eq_of_ok bound] at started
    have start : Guards unguarded [] (Session.fresh limits) := ⟨fresh, nofun, nofun⟩
    obtain ⟨guarded, guards⟩ := start.defineAll bound
    have sound : s.Sound (backend.policy guarded) :=
      .of_natives (fun quiet => absurd quiet (backend.not_quiet_policy guarded)) (backend.frozen_policy guarded)
        (by rw [backend.guarded_policy]; exact guards.sound)
    have settled := ((Session.atRest_fresh limits).leads leads.1).settled
    have ends := Evaluator.ends_evaluateText (e := ⟨backend, Eval.runNative #[], fuel⟩)
      (backend.allowed_policy guarded)
      (Obeys.runNative (fun _ h => absurd h (Array.not_mem_empty _)) (backend.writes_policy guarded))
      (backend.mayFail_policy guarded) prelude sound settled
    cases ran : Evaluator.evaluateText ⟨backend, Eval.runNative #[], fuel⟩ prelude s with
    | error stop w =>
      rw [Eval.bind_eq_of_error ran] at started
      cases started
    | ok w s' =>
      rw [Eval.bind_eq_of_ok ran] at started
      cases started
      rw [ran] at ends
      refine ⟨guarded, ⟨by simp, ends.1.sound sound, ?_⟩, fun op => ?_⟩
      · exact ((Session.atRest_fresh limits).leads leads.1).leads ends.1
      · obtain ⟨name, found, hn⟩ := guards.all op (by simpa using Builtin.mem_all _)
        exact ⟨name, ends.1.evolves.find? found, hn⟩

/-- An engine that was made, and whose hosts leave the names of core operators alone. -/
def Prepared (e : Engine) : Prop :=
  ∃ limits fuel made, Engine.create e.backend limits fuel = .ok made ∧
    Reaches (fun name => CoreOp.ofName? name = none)
      (fun h => ∀ guarded, h.Tidy (e.backend.policy guarded)) made e

/-- **Core operators stay what they are**: the name of one is bound to its built-in function or to a macro,
and calling that function is running the instruction of the operator. -/
theorem Prepared.core_inline (h : e.Prepared) (op : CoreOp) : ∃ name a f,
    e.session.symbols.find? op.name = some name ∧
    e.session.global? name = some (.ref .function a) ∧
    e.session.heap.get? a = some (.function f) ∧
    (f.isMacro = true ∨ f.body = .native (.builtin op.builtin) ∧
      ∀ (back : Caller) (m : Machine) (site : Nat), site < m.top.code.sites.size →
        ∀ (operands : Array Value) (x y : Value),
          (m.withOperands (operands ++ #[.ref .function a, x, y])).call (Eval.runNative e.hosts) back 2 site
              e.session =
            (m.withOperands (operands ++ #[x, y])).execute (Eval.runNative e.hosts) back
              (op.instruction site) e.session) := by
  obtain ⟨limits, fuel, made, created, reaches⟩ := h
  obtain ⟨same, guarded, start, named⟩ := create_guards created
  have free : (made.backend.policy guarded).Frees fun name => CoreOp.ofName? name = none :=
    fun name hn => .inl hn
  obtain ⟨orderly, backend, evolves⟩ := reaches.orderly start free fun f tidy => same ▸ tidy guarded
  obtain ⟨name, found, hn⟩ := named op
  have bound : (e.backend.policy guarded).guarded name = some (.builtin op.builtin) := by
    rw [Backend.guarded_policy, hn]
  obtain ⟨_, hv, a, f, rfl, hf, kind⟩ := orderly.sound.guarded bound
  refine ⟨name, a, f, evolves.find? found, hv, hf, kind.imp_right fun body => ⟨body, ?_⟩⟩
  exact fun back m site hs operands x y => Machine.call_eq_inline e.hosts back m op hs operands hf body x y

end Engine

end TwinLisp
