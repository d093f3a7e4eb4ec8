import TwinLisp.Library.Native
import TwinLisp.Proofs.Conduct.Library

/-!
# Native functions obey

Host functions may do what they like to a session as long as they keep to its policy. Whatever they fail
with is reported as an ordinary failure.

## Main definitions

* `HostFunction.Tidy`: what is asked of a host function.

## Main statements

* `Obeys.runNative`: every call of a native function obeys.
-/

namespace TwinLisp

section

variable {P : Policy} {mayFail : Cause → Prop} {h : ∀ {c : Cause}, c.IsOrdinary → mayFail c}

/-- What a policy says about failures has no bearing on what changes it allows. -/
theorem Session.Change.of_failing {s t : Session} (hc : Session.Change (P.failing mayFail h) s t) :
    Session.Change P s t := by
  cases hc with
  | intern name => exact .intern name
  | generate n => exact .generate n
  | write output => exact .write output
  | terminate => exact .terminate
  | openScope parent => exact .openScope parent
  | define hi name v => exact .define (show P.Binds _ from hi) name v
  | defineGlobal hn => exact .defineGlobal hn
  | place ho => exact .place ho
  | setAtom ha hw v => exact .setAtom ha (show P.writes _ from hw) v
  | embed v => exact .embed v
  | setFloor floor => exact .setFloor floor
  | collect hq roots => exact .collect (show ¬ P.quiet from hq) roots
  | pins pins nextPin => exact .pins pins nextPin
  | inhibit n hq => exact .inhibit n (show P.quiet → 0 < n from hq)
  | lend operands => exact .lend operands
  | counters c n a => exact .counters c n a

theorem Session.Evolves.of_failing {s t : Session} (he : Session.Evolves (P.failing mayFail h) s t) :
    Session.Evolves P s t := Relation.ReflTransGen.mono (fun _ _ => Change.of_failing) _ _ he

theorem Session.Leads.of_failing {s t : Session} (hl : s.Leads (P.failing mayFail h) t) :
    s.Leads P t :=
  ⟨⟨hl.evolves.of_failing, hl.inhibited, hl.nesting, hl.attribution, hl.floor, hl.operands⟩,
    hl.callDepth⟩

theorem Session.Strays.of_failing {s t : Session} (hl : s.Strays (P.failing mayFail h) t) :
    s.Strays P t :=
  have ⟨u, hu, ht⟩ := hl
  ⟨u, Evolves.of_failing hu, ht⟩

theorem Session.Sound.failing {s : Session} (hs : s.Sound P) : s.Sound (P.failing mayFail h) :=
  ⟨hs.heap, hs.functions, hs.names, hs.root, hs.inhibited, hs.scopes⟩

/-- However a computation fails, its failures may be reported in a permitted way. -/
theorem Obeys.reported {α : Type} {Q : α → Prop} {x : Eval α} {change : Fault → Fault}
    (hx : Obeys (P.failing mayFail h) x Q) (hc : ∀ f, P.mayFail (change f).cause) :
    Obeys P (Eval.mapFault change x) Q := by
  intro s hs
  have inner := hx s hs.failing
  unfold Eval.mapFault
  generalize x s = r at inner ⊢
  cases r with
  | ok a t => exact ⟨inner.1.of_failing, inner.2⟩
  | error e t =>
    cases e with
    | fault f => exact ⟨inner.1.of_failing, hc f⟩
    | outOfFuel => exact Session.Strays.of_failing inner

end

/-- A host function changes a session in permitted ways only. It may fail in any way. -/
def HostFunction.Tidy (P : Policy) (h : HostFunction) : Prop :=
  ∀ args, Obeys (P.failing (fun _ => True) fun _ => trivial) (h.run args) ⊤

/-- What a host function fails with is reported as an ordinary failure. -/
theorem HostFunction.isOrdinary_failure (name : String) (f : Fault) :
    (HostFunction.failure name f).cause.IsOrdinary := by
  obtain ⟨cause, location, payload⟩ := f
  unfold HostFunction.failure
  split
  · next fatal =>
    cases cause with
    | malformed _ _ => simp [Fault.isFatal, Fault.kind, Cause.kind, FaultKind.isFatal] at fatal
    | codeTooLarge _ => simp [Fault.isFatal, Fault.kind, Cause.kind, FaultKind.isFatal] at fatal
    | defect _ => simp [Fault.isFatal, Fault.kind, Cause.kind, FaultKind.isFatal] at fatal
    | _ => trivial
  · cases location with
    | none => trivial
    | some l =>
      dsimp only
      rw [Fault.cause_located]
      trivial

/-- The atom that a native function writes when it is applied to the arguments. -/
def Native.written? : Native → List Value → Option Address
  | .builtin b, args => b.written? args
  | .host _, _ => none

/-- What a native function does once collection is forbidden. -/
def Eval.nativeBody (hosts : HostTable) (call : Caller) (n : Native) (args : List Value) : Eval Value :=
  match n with
  | .builtin b => Library.run call b args
  | .host i =>
    match hosts[i]? with
    | some h => h.call args
    | none => failWith (.notCallable Kind.function.name)

theorem Eval.runNative_eq (hosts : HostTable) (call : Caller) (n : Native) (args : List Value) :
    runNative hosts call n args = withoutCollection (nativeBody hosts call n args) := rfl

/-- A way to run native functions obeys the policy. -/
def NativeRunner.Obedient (P : Policy) (natives : NativeRunner) : Prop :=
  ∀ {call : Caller}, call.Obedient P → ∀ n args, Obeys P (natives call n args) ⊤

namespace Obeys

variable {P : Policy}

/-- What a native function does once collection is forbidden obeys, if the atom that it writes may be
written; a function of the host if it is tidy. -/
theorem nativeBody {hosts : HostTable} (hh : ∀ h ∈ hosts, h.Tidy P) {call : Caller}
    (hc : call.Obedient P) {n : Native} {args : List Value}
    (hw : ∀ a, n.written? args = some a → P.writes a) : Obeys P (Eval.nativeBody hosts call n args) ⊤ := by
  cases n with
  | builtin b => exact run hc b args hw
  | host i =>
    unfold Eval.nativeBody
    dsimp only
    split
    · next h hi =>
      unfold HostFunction.call
      split
      · exact failWith (P.ordinary trivial)
      · exact reported (hh h (Array.mem_of_getElem? hi) args) fun f =>
          P.ordinary (HostFunction.isOrdinary_failure h.name f)
    · exact failWith (P.ordinary trivial)

/-- **A native function obeys**, if the atom that it writes may be written; a function of the host if it is
tidy. -/
theorem runNativeCall {hosts : HostTable} (hh : ∀ h ∈ hosts, h.Tidy P) {call : Caller}
    (hc : call.Obedient P) {n : Native} {args : List Value}
    (hw : ∀ a, n.written? args = some a → P.writes a) : Obeys P (Eval.runNative hosts call n args) ⊤ :=
  withoutCollection (nativeBody hh hc hw)

/-- **Native functions obey** where all atoms may be written. -/
theorem runNative {hosts : HostTable} (hh : ∀ h ∈ hosts, h.Tidy P) (hw : ∀ a, P.writes a) :
    (Eval.runNative hosts).Obedient P := fun hc _ _ => runNativeCall hh hc fun a _ => hw a

theorem callable (v : Value) : Obeys P (Eval.callable v) P.admits := by
  refine (function? v).bind fun found hf => ?_
  cases found with
  | some f => exact pure (hf f rfl)
  | none => exact failWith (P.ordinary trivial)

theorem calleeName (name : Option Symbol) : Obeys P (Eval.calleeName name) ⊤ := by
  cases name with
  | some symbol => exact nameOf symbol
  | none => exact done _

end Obeys

end TwinLisp
