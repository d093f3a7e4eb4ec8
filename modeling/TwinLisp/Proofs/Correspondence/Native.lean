import TwinLisp.Library.Native
import TwinLisp.Proofs.Correspondence.Collections
import TwinLisp.Proofs.Correspondence.HigherOrder
import TwinLisp.Proofs.Correspondence.Numbers
import TwinLisp.Proofs.Correspondence.Reflection

/-!
# Native functions agree

All built-ins but the one that counts what is on the heap do the same in sessions that correspond. To
say of a run that it does not use that one, the run is *watched*: the session ends where the counts
are asked for. A run that is watched and does not end in this way is one that is not watched.

A session that is compared with itself counts the same as itself. What functions of the host do is up to the
host; they have to be *faithful*, that is, to use values only in the ways that a session offers.

## Main definitions

* `HostFunction.Faithful`: functions of the host that do the same in sessions that correspond.
* `NativeRunner.Match`: what it is for two ways to run native functions to correspond.
* `Eval.watched`: the native functions, watched.

## Main statements

* `Sim.run`: all built-ins agree, one of them only where a session is compared with itself.
* `NativeRunner.Match.watched`, `NativeRunner.Match.unwatched`, `NativeRunner.Match.itself`.
-/

namespace TwinLisp

/-- Two ways to run native functions correspond: where calls agree, so do native functions. -/
def NativeRunner.Match (S : Setting) (natives natives' : NativeRunner) : Prop :=
  ∀ {q : Bool} {w : World} {call call' : Caller} (n : Native) {args args' : List Value},
    Caller.Match S call call' → Value.MatchAll w args args' →
      Sim S q w (natives call n args) (natives' call' n args') Value.Match

/-- A function of the host does the same with arguments that correspond: it uses values only in the ways that
a session offers, and makes no references up. -/
def HostFunction.Faithful (S : Setting) (h : HostFunction) : Prop :=
  ∀ {q : Bool} {w : World} {args args' : List Value}, Value.MatchAll w args args' →
    Sim S q w (h.run args) (h.run args') Value.Match

/-- The native functions, where asking for the counts of the heap ends the session. -/
def Eval.watched (hosts : HostTable) : NativeRunner := fun call n args =>
  if n = .builtin .heapStats then failWith .terminated else runNative hosts call n args

/-- Reports of failures correspond. -/
theorem HostFunction.failure_match (name : String) {w : World} {f g : Fault} (h : f.Match w g) :
    (failure name f).Match w (failure name g) := by
  unfold failure
  rw [h.isFatal_eq, h.kind_eq, h.location, h.message_eq]
  split
  · exact h
  · split
    · exact (Fault.Match.of w _ (by rfl)).located _
    · exact .of w _ rfl

namespace Sim

variable {S : Setting} {q : Bool} {w : World} {call call' : Caller} {args args' : List Value}

/-- A new atom. -/
theorem newAtom (h : Value.MatchAll w args args') :
    Sim S true w (Library.run call .atom args) (Library.run call' .atom args') Value.Match := by
  have refused := refuseCount (S := S) (q := true) (R := Value.Match) .atom (.exactly 1) h
  rcases h with _ | ⟨hx, _ | ⟨_, _⟩⟩
  · exact refused
  · exact new (.atom hx)
  · exact refused

/-- A session that is compared with itself has the same counts as itself. -/
theorem heapStats (hS : S.isSelf) (h : Value.MatchAll w args args') :
    Sim S q w (Library.heapStats args) (Library.heapStats args') Value.Match := by
  cases h with
  | cons hv hs => exact refuseCount _ _ (.cons hv hs)
  | nil =>
    refine get fun {s t} hm => ?_
    rw [← hm.eq (hm.isSelf hS)]
    refine (mapM (P := Same) (T := Entry.Match) (fun _ => id) (fun hw h => h.mono hw)
      (List.forall₂_same.2 fun _ _ => rfl) fun {_ a b} _ h => ?_).bind fun _ h => newMap h
    cases h
    exact (keyword _).bind fun _ hk => pure ⟨hk, .int _⟩

/-- Host functions are called alike. -/
theorem callHost {h : HostFunction} (hh : h.Faithful S) (ha : Value.MatchAll w args args') :
    Sim S q w (h.call args) (h.call args') Value.Match := by
  unfold HostFunction.call
  rw [ha.length_eq]
  split
  · exact failWith _ rfl
  · refine (hh ha).mapFault (fun f hf => ?_) fun hfg => HostFunction.failure_match _ hfg
    rw [HostFunction.failure, hf]
    exact hf

/-- **All built-ins agree**, but the one that counts what is on the heap does so only where a session is
compared with itself. -/
theorem run (hS : S.exact) (hc : Caller.Match S call call') {b : Builtin}
    (hb : b = .heapStats → S.isSelf) (h : Value.MatchAll w args args') :
    Sim S true w (Library.run call b args) (Library.run call' b args') Value.Match := by
  cases b with
  | add => exact add h
  | sub => exact sub h
  | mul => exact mul h
  | div => exact div h
  | quot => exact divided _ .quot h
  | rem => exact divided _ .rem h
  | mod => exact divided _ .mod h
  | inc => exact step _ .add h
  | dec => exact step _ .sub h
  | max => exact extremum _ .gt h
  | min => exact extremum _ .lt h
  | eq => exact equality hS _ true h
  | notEq => exact equality hS _ false h
  | lt => exact chain _ .lt h
  | gt => exact chain _ .gt h
  | le => exact chain _ .le h
  | ge => exact chain _ .ge h
  | identical => exact identical hS h
  | not => exact typeTest _ (fun hv => by rw [hv.isTruthy_eq]) h
  | isNil => exact typeTest _ isNil_eq h
  | isNumber => exact typeTest _ Value.Match.isNumber_eq h
  | isInt => exact typeTest _ (fun hv => by cases hv <;> rfl) h
  | isString => exact typeTest _ (Library.isRef_eq .str) h
  | isSymbol => exact typeTest _ (fun hv => by cases hv <;> rfl) h
  | isKeyword => exact typeTest _ (fun hv => by cases hv <;> rfl) h
  | isList => exact typeTest _ (Library.isRef_eq .list) h
  | isVector => exact typeTest _ (Library.isRef_eq .vector) h
  | isMap => exact typeTest _ (Library.isRef_eq .map) h
  | isSet => exact typeTest _ (Library.isRef_eq .set) h
  | isFn => exact typeTest _ (Library.isRef_eq .function) h
  | isAtom => exact typeTest _ (Library.isRef_eq .atom) h
  | isSequential => exact isSequential h
  | isZero => exact signTest _ _ h
  | isPos => exact signTest _ _ h
  | isNeg => exact signTest _ _ h
  | isEven => exact parity _ _ h
  | isOdd => exact parity _ _ h
  | list => exact newList h
  | vector => exact newVector h
  | hashMap => exact hashMap h
  | hashSet => exact newSet h
  | conj => exact conj h
  | assoc => exact assoc h
  | dissoc => exact dissoc h
  | get => exact getFrom h
  | contains => exact contains h
  | keys => exact mapView _ (fun he => he.1) h
  | vals => exact mapView _ (fun he => he.2) h
  | first => exact first h
  | second => exact second h
  | last => exact last h
  | rest => exact rest h
  | next => exact next h
  | cons => exact cons h
  | count => exact count h
  | nth => exact nth h
  | seq => exact seq h
  | concat => exact concat h
  | isEmpty => exact isEmpty h
  | reverse => exact reverse h
  | range => exact range h
  | apply => exact apply hc h
  | map => exact map hc h
  | filter => exact filter hc h
  | reduce => exact reduce hc h
  | atom => exact newAtom h
  | deref => exact deref h
  | reset => exact reset h
  | swap => exact swap hc h
  | compareAndSet => exact compareAndSet hS h
  | str => exact str h
  | prStr => exact prStr h
  | print => exact print _ _ h
  | println => exact print _ _ h
  | prn => exact print _ _ h
  | exInfo => exact exInfo h
  | exData => exact field _ _ h
  | exMessage => exact field _ _ h
  | gensym => exact gensym h
  | heapStats => exact heapStats (hb rfl) h
  | macroexpandOne => exact macroexpandOne hc h
  | macroexpand => exact macroexpand hc h

end Sim

namespace NativeRunner.Match

variable {S : Setting} {hosts : HostTable} (hh : ∀ h ∈ hosts, h.Faithful S)
include hh

theorem runNative {q : Bool} {w : World} {call call' : Caller} (hS : S.exact) (n : Native)
    (hn : n = .builtin .heapStats → S.isSelf) {args args' : List Value} (hc : Caller.Match S call call')
    (h : Value.MatchAll w args args') :
    Sim S q w (Eval.runNative hosts call n args) (Eval.runNative hosts call' n args') Value.Match := by
  refine Sim.withoutCollection ?_
  cases n with
  | builtin b => exact Sim.run hS hc (fun e => hn (e ▸ rfl)) h
  | host i =>
    dsimp only
    cases hi : hosts[i]? with
    | none => exact Sim.failWith _ rfl
    | some f => exact Sim.callHost (hh f (Array.mem_of_getElem? hi)) h

/-- In a session that is compared with itself, all native functions are the same. -/
theorem itself (hS : S.exact) (self : S.isSelf) :
    NativeRunner.Match S (Eval.runNative hosts) (Eval.runNative hosts) := fun n _ _ hc h =>
  runNative hh hS n (fun _ => self) hc h

/-- Two runs that are watched. -/
theorem watched (hS : S.exact) : NativeRunner.Match S (Eval.watched hosts) (Eval.watched hosts) := by
  intro q w call call' n args args' hc h
  unfold Eval.watched
  split
  · exact Sim.failWith _ rfl
  · next hn => exact runNative hh hS n (fun e => absurd e hn) hc h

/-- A run that is not watched and one that is, which may end where the other one does not. -/
theorem unwatched (hS : S.exact) (hend : S.mayEndRight) :
    NativeRunner.Match S (Eval.runNative hosts) (Eval.watched hosts) := by
  intro q w call call' n args args' hc h
  unfold Eval.watched
  split
  · exact fun _ _ _ _ => .fatalRight hend rfl
  · next hn => exact runNative hh hS n (fun e => absurd e hn) hc h

end NativeRunner.Match

end TwinLisp
