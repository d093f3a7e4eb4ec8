import TwinLisp.Library.Dispatch
import TwinLisp.Proofs.Conduct.Expansion

/-!
# The built-ins obey

No built-in makes a function or binds a name at the root, none of them leaves a counter changed, and none
fails in a way that only an evaluator could. They obey every policy under which calls of functions do.

## Main statements

* `Obeys.callData`: data called as functions obey.
* `Obeys.run`: every built-in obeys.
-/

namespace TwinLisp

/-! ### Numbers -/

namespace Numeric

variable {α β : Type}

/-- The operation fails in ordinary ways only. -/
def FailsOrdinarily : Except NumericFault α → Prop
  | .ok _ => True
  | .error e => e.cause.IsOrdinary

theorem FailsOrdinarily.bind {x : Except NumericFault α} {f : α → Except NumericFault β}
    (h : FailsOrdinarily x) (hf : ∀ a, FailsOrdinarily (f a)) : FailsOrdinarily (x >>= f) := by
  cases x with
  | ok a => exact hf a
  | error e => exact h

theorem failsOrdinarily_checkNumber (operation : String) (i : Nat) (v : Value) :
    FailsOrdinarily (checkNumber operation i v) := by
  unfold checkNumber
  split
  · exact trivial
  · exact trivial

theorem failsOrdinarily_exact (operation : String) (n : Int) : FailsOrdinarily (exact operation n) := by
  unfold exact
  split
  · exact trivial
  · exact trivial

theorem failsOrdinarily_arith (op : ArithOp) (a b : Value) : FailsOrdinarily (arith op a b) := by
  refine (failsOrdinarily_checkNumber ..).bind fun _ => (failsOrdinarily_checkNumber ..).bind fun _ => ?_
  split
  · cases op with
    | div =>
      unfold arithInt
      dsimp only
      split
      · exact trivial
      · split
        · exact failsOrdinarily_exact ..
        · exact trivial
    | _ => exact failsOrdinarily_exact ..
  · exact trivial

theorem failsOrdinarily_compareNumbers (op : CompareOp) (a b : Value) :
    FailsOrdinarily (compareNumbers op a b) :=
  (failsOrdinarily_checkNumber ..).bind fun _ => (failsOrdinarily_checkNumber ..).bind fun _ =>
    trivial

theorem failsOrdinarily_negate (a : Value) : FailsOrdinarily (negate a) := by
  refine (failsOrdinarily_checkNumber ..).bind fun _ => ?_
  split
  · exact failsOrdinarily_exact ..
  · exact trivial

theorem failsOrdinarily_divide (op : DivisionOp) (a b : Value) : FailsOrdinarily (divide op a b) := by
  refine (failsOrdinarily_checkNumber ..).bind fun _ => (failsOrdinarily_checkNumber ..).bind fun _ => ?_
  split
  · unfold divideInt
    dsimp only
    split
    · exact trivial
    · refine (failsOrdinarily_exact ..).bind fun _ => ?_
      cases op with
      | quot => exact trivial
      | _ => exact failsOrdinarily_exact ..
  · dsimp only
    split
    · exact trivial
    · exact trivial

end Numeric

/-- The atom that a built-in function writes when it is applied to the arguments. -/
def Builtin.written? : Builtin → List Value → Option Address
  | .reset, .ref .atom a :: _ => some a
  | .swap, .ref .atom a :: _ => some a
  | .compareAndSet, .ref .atom a :: _ => some a
  | _, _ => none

namespace Obeys

open Numeric

variable {P : Policy} {α : Type} {Q : α → Prop}

/-! ### Arguments -/

theorem refuseCount (b : Builtin) (accepts : Accepts) (args : List Value) :
    Obeys P (Library.refuseCount b accepts args : Eval α) Q := failWith (P.ordinary trivial)

theorem refuse (b : Builtin) (i : Nat) (expected : String) (v : Value) :
    Obeys P (Library.refuse b i expected v : Eval α) Q := failAt i (P.ordinary trivial)

theorem settle (first : Nat) {x : Except NumericFault α} (h : FailsOrdinarily x) :
    Obeys P (Library.settle first x) ⊤ := by
  unfold Library.settle
  split
  · exact done _
  · exact failAt _ (P.ordinary h)
  · refine callSite.andThen fun _ => fail ?_
    rw [Fault.cause_orAt]
    exact P.ordinary h

theorem settleOn (i : Nat) {x : Except NumericFault α} (h : FailsOrdinarily x) :
    Obeys P (Library.settleOn i x) ⊤ := by
  unfold Library.settleOn
  split
  · exact done _
  · exact failAt _ (P.ordinary h)

theorem integer (b : Builtin) (i : Nat) (v : Value) : Obeys P (Library.integer b i v) ⊤ := by
  unfold Library.integer
  split
  · exact done _
  · exact refuse _ _ _ _

theorem elements (b : Builtin) (i : Nat) (v : Value) : Obeys P (Library.elements b i v) ⊤ := by
  unfold Library.elements
  split
  · exact done _
  · exact (items? _).andThen fun _ => done _
  · exact (items? _).andThen fun _ => done _
  · exact (set? _).andThen fun _ => done _
  · exact (map? _).andThen fun _ => mapEach (fun _ => newVector _) _
  · exact (string? _).andThen fun _ => done _
  · exact refuse _ _ _ _

/-! ### Numbers -/

theorem foldFrom (op : ArithOp) (acc : Value) (i : Nat) (xs : List Value) :
    Obeys P (Library.foldFrom op acc i xs) ⊤ := by
  induction xs generalizing acc i with
  | nil => exact done _
  | cons x xs ih => exact (settle _ (failsOrdinarily_arith ..)).andThen fun _ => ih _ _

theorem fold (op : ArithOp) (first : Value) (more : List Value) :
    Obeys P (Library.fold op first more) ⊤ :=
  (settle _ (failsOrdinarily_checkNumber ..)).andThen fun _ => foldFrom _ _ _ _

theorem divided (b : Builtin) (op : DivisionOp) (args : List Value) :
    Obeys P (Library.divided b op args) ⊤ := by
  unfold Library.divided
  split
  · exact settle _ (failsOrdinarily_divide ..)
  · exact refuseCount _ _ _

theorem step (b : Builtin) (op : ArithOp) (args : List Value) : Obeys P (Library.step b op args) ⊤ := by
  unfold Library.step
  split
  · exact (settleOn _ (failsOrdinarily_checkNumber ..)).andThen fun _ =>
      settle _ (failsOrdinarily_arith ..)
  · exact refuseCount _ _ _

theorem extremumFrom (b : Builtin) (better : CompareOp) (best : Value) (i : Nat) (xs : List Value) :
    Obeys P (Library.extremumFrom b better best i xs) ⊤ := by
  induction xs generalizing best i with
  | nil => exact done _
  | cons x xs ih =>
    refine (settleOn _ (failsOrdinarily_checkNumber ..)).andThen fun _ => ?_
    exact (settle _ (failsOrdinarily_compareNumbers ..)).andThen fun _ => ih _ _

theorem extremum (b : Builtin) (better : CompareOp) (args : List Value) :
    Obeys P (Library.extremum b better args) ⊤ := by
  cases args with
  | nil => exact refuseCount _ _ _
  | cons x xs => exact (settleOn _ (failsOrdinarily_checkNumber ..)).andThen fun _ => extremumFrom _ _ _ _ _

theorem chainFrom (op : CompareOp) (i : Nat) (previous : Value) (xs : List Value) :
    Obeys P (Library.chainFrom op i previous xs) ⊤ := by
  induction xs generalizing previous i with
  | nil => exact done _
  | cons x xs ih =>
    refine (settle _ (failsOrdinarily_compareNumbers ..)).andThen fun _ => ?_
    exact (ih _ _).andThen fun _ => done _

theorem chain (b : Builtin) (op : CompareOp) (args : List Value) :
    Obeys P (Library.chain b op args) ⊤ := by
  cases args with
  | nil => exact refuseCount _ _ _
  | cons x xs =>
    refine (settle _ (failsOrdinarily_checkNumber ..)).andThen fun _ => ?_
    exact (chainFrom _ _ _ _).andThen fun _ => done _

theorem signTest (b : Builtin) (test : Ordering → Bool) (args : List Value) :
    Obeys P (Library.signTest b test args) ⊤ := by
  unfold Library.signTest
  split
  · exact (settleOn _ (failsOrdinarily_checkNumber ..)).andThen fun _ => done _
  · exact refuseCount _ _ _

theorem parity (b : Builtin) (even : Bool) (args : List Value) :
    Obeys P (Library.parity b even args) ⊤ := by
  unfold Library.parity
  split
  · exact (integer _ _ _).andThen fun _ => done _
  · exact refuseCount _ _ _

theorem range (args : List Value) : Obeys P (Library.range args) ⊤ := by
  have bounds : Obeys P (Library.rangeBounds args) ⊤ := by
    unfold Library.rangeBounds
    split
    · exact (integer _ _ _).andThen fun _ => done _
    · exact (integer _ _ _).andThen fun _ => (integer _ _ _).andThen fun _ => done _
    · exact (integer _ _ _).andThen fun _ => (integer _ _ _).andThen fun _ => (integer _ _ _).andThen fun _ =>
        done _
    · exact refuseCount _ _ _
  refine bounds.andThen fun _ => ?_
  dsimp only
  split
  · have refused : Obeys P (Eval.failAt 2 .zeroStep : Eval PUnit) ⊤ := failAt 2 (P.ordinary trivial)
    exact refused.andThen fun _ => newList _
  · exact newList _

/-! ### Questions -/

theorem typeTest (b : Builtin) (test : Value → Bool) (args : List Value) :
    Obeys P (Library.typeTest b test args) ⊤ := by
  unfold Library.typeTest
  split
  · exact done _
  · exact refuseCount _ _ _

theorem isSequential (args : List Value) : Obeys P (Library.isSequential args) ⊤ := by
  unfold Library.isSequential
  split
  · refine get fun _ _ => ?_
    split <;> exact done _
  · exact refuseCount _ _ _

theorem allEqual (previous : Value) (xs : List Value) : Obeys P (Library.allEqual previous xs) ⊤ := by
  induction xs generalizing previous with
  | nil => exact done _
  | cons x xs ih =>
    refine (areEqual _ _).andThen fun _ => ?_
    split
    · exact ih _
    · exact done _

theorem equality (b : Builtin) (wanted : Bool) (args : List Value) :
    Obeys P (Library.equality b wanted args) ⊤ := by
  cases args with
  | nil => exact refuseCount _ _ _
  | cons x xs => exact (allEqual _ _).andThen fun _ => done _

theorem identical (args : List Value) : Obeys P (Library.identical args) ⊤ := by
  unfold Library.identical
  split
  · exact done _
  · exact refuseCount _ _ _

/-! ### Sequences -/

theorem onlyElements (b : Builtin) (args : List Value) : Obeys P (Library.onlyElements b args) ⊤ := by
  unfold Library.onlyElements
  split
  · exact elements _ _ _
  · exact refuseCount _ _ _

theorem next (args : List Value) : Obeys P (Library.next args) ⊤ := by
  refine (onlyElements _ _).andThen fun _ => ?_
  split
  · exact done _
  · exact newList _

theorem seq (args : List Value) : Obeys P (Library.seq args) ⊤ := by
  refine (onlyElements _ _).andThen fun _ => ?_
  split
  · exact done _
  · exact done _
  · exact newList _

theorem cons (args : List Value) : Obeys P (Library.cons args) ⊤ := by
  unfold Library.cons
  split
  · exact (elements _ _ _).andThen fun _ => newList _
  · exact refuseCount _ _ _

theorem concat (args : List Value) : Obeys P (Library.concat args) ⊤ :=
  (mapEach (fun _ => elements _ _ _) _).andThen fun _ => newList _

theorem countOf (coll : Value) : Obeys P (Library.countOf coll) ⊤ := by
  unfold Library.countOf
  split
  · exact done _
  · exact (map? _).andThen fun _ => done _
  · exact (set? _).andThen fun _ => done _
  · exact (string? _).andThen fun _ => done _
  · exact (items? _).andThen fun _ => done _
  · exact (items? _).andThen fun _ => done _
  · exact refuse _ _ _ _

theorem count (args : List Value) : Obeys P (Library.count args) ⊤ := by
  unfold Library.count
  split
  · exact (countOf _).andThen fun _ => done _
  · exact refuseCount _ _ _

theorem nthOf (coll index : Value) (default : Option Value) :
    Obeys P (Library.nthOf coll index default) ⊤ := by
  refine (elements _ _ _).andThen fun items => (integer _ _ _).andThen fun i => ?_
  dsimp only
  generalize (if 0 ≤ i.toInt then items[i.toInt.toNat]? else none) = found
  split
  · exact done _
  · exact done _
  · exact failAt _ (P.ordinary trivial)

theorem nth (args : List Value) : Obeys P (Library.nth args) ⊤ := by
  unfold Library.nth
  split
  · exact nthOf _ _ _
  · exact nthOf _ _ _
  · exact refuseCount _ _ _

/-! ### Collections -/

theorem lookup? (coll key : Value) : Obeys P (Library.lookup? coll key) ⊤ := by
  unfold Library.lookup?
  split
  · refine (map? _).andThen fun _ => ?_
    split
    · exact (keyOf _).andThen fun _ => done _
    · exact done _
  · refine (set? _).andThen fun _ => ?_
    split
    · exact (keyOf _).andThen fun _ => done _
    · exact done _
  · split
    · exact (items? _).andThen fun _ => done _
    · exact done _
  · split
    · exact (string? _).andThen fun _ => done _
    · exact done _
  · exact done _

theorem getFrom (args : List Value) : Obeys P (Library.getFrom args) ⊤ := by
  unfold Library.getFrom
  split
  · exact (lookup? _ _).andThen fun _ => done _
  · exact (lookup? _ _).andThen fun _ => done _
  · exact refuseCount _ _ _

theorem keyIfAny (v : Value) : Obeys P (Library.keyIfAny v) ⊤ := by
  refine get fun _ _ => ?_
  split <;> exact done _

theorem contains (args : List Value) : Obeys P (Library.contains args) ⊤ := by
  unfold Library.contains
  split
  · split
    · exact done _
    · exact (map? _).andThen fun _ => (keyIfAny _).andThen fun _ => done _
    · exact (set? _).andThen fun _ => (keyIfAny _).andThen fun _ => done _
    · split
      · exact (items? _).andThen fun _ => done _
      · exact done _
    · exact refuse _ _ _ _
  · exact refuseCount _ _ _

theorem mapView (b : Builtin) (view : Value × Value → Value) (args : List Value) :
    Obeys P (Library.mapView b view args) ⊤ := by
  unfold Library.mapView
  split
  · exact done _
  · refine (map? _).andThen fun _ => ?_
    dsimp only
    split
    · exact done _
    · exact newList _
  · exact refuse _ _ _ _
  · exact refuseCount _ _ _

theorem hashMap (args : List Value) : Obeys P (Library.hashMap args) ⊤ := by
  unfold Library.hashMap
  split
  · exact failWith (P.ordinary trivial)
  · exact newMap _

theorem addEntry (m : OrderedMap) (i : Nat) (entry : Value) : Obeys P (Library.addEntry m i entry) ⊤ := by
  unfold Library.addEntry
  split
  · refine (items? _).andThen fun _ => ?_
    split
    · exact insertEntries _ _
    · exact refuse _ _ _ _
  · exact (map? _).andThen fun _ => insertEntries _ _
  · exact done _
  · exact refuse _ _ _ _

theorem conj (args : List Value) : Obeys P (Library.conj args) ⊤ := by
  unfold Library.conj
  split
  · exact newVector _
  · split
    · exact newList _
    · exact (items? _).andThen fun _ => newList _
    · exact (items? _).andThen fun _ => newVector _
    · exact (set? _).andThen fun _ => (insertMembers _ _).andThen fun _ => new nofun
    · refine (map? _).andThen fun _ => ?_
      exact (foldlM (R := ⊤) (fun _ _ _ => addEntry _ _ _) trivial).andThen fun _ => new nofun
    · exact refuse _ _ _ _

theorem replaceItems (items : List Value) (i : Nat) (pairs : List (Value × Value)) :
    Obeys P (Library.replaceItems items i pairs) ⊤ := by
  induction pairs generalizing items i with
  | nil => exact done _
  | cons pair pairs ih =>
    unfold Library.replaceItems
    split
    · dsimp only
      split
      · exact failAt _ (P.ordinary trivial)
      · split
        · exact ih _ _
        · exact ih _ _
    · exact refuse _ _ _ _

theorem assoc (args : List Value) : Obeys P (Library.assoc args) ⊤ := by
  unfold Library.assoc
  split
  · dsimp only
    split
    · exact refuseCount _ _ _
    · split
      · exact newMap _
      · exact (map? _).andThen fun _ => (insertEntries _ _).andThen fun _ => new nofun
      · exact (items? _).andThen fun _ => (replaceItems _ _ _).andThen fun _ => newVector _
      · exact refuse _ _ _ _
  · exact refuseCount _ _ _

theorem dissoc (args : List Value) : Obeys P (Library.dissoc args) ⊤ := by
  unfold Library.dissoc
  split
  · exact refuseCount _ _ _
  · split
    · exact done _
    · refine (map? _).andThen fun _ => ?_
      refine (foldlM (R := ⊤) (fun _ _ _ => ?_) trivial).andThen fun _ => new nofun
      exact (keyOf _).andThen fun _ => done _
    · exact refuse _ _ _ _

theorem callData (f : Value) (args : List Value) : Obeys P (Library.callData f args) ⊤ := by
  have refused (name : String) (accepts : Accepts) :
      Obeys P (Eval.failWith (.arity name accepts args.length) : Eval Value) ⊤ :=
    failWith (P.ordinary trivial)
  unfold Library.callData
  dsimp only
  split
  · split
    · exact (lookup? _ _).andThen fun _ => done _
    · exact (lookup? _ _).andThen fun _ => done _
    · exact get fun _ _ => refused _ _
  · split
    · exact (lookup? _ _).andThen fun _ => done _
    · exact (lookup? _ _).andThen fun _ => done _
    · exact refused _ _
  · split
    · exact (lookup? _ _).andThen fun _ => done _
    · exact refused _ _
  · split
    · refine (items? _).andThen fun _ => ?_
      split
      · split
        · exact done _
        · exact failAt _ (P.ordinary trivial)
      · exact failAt _ (P.ordinary trivial)
    · exact refused _ _
  · exact failWith (P.ordinary trivial)

/-! ### Atoms -/

theorem atomAddress (b : Builtin) (v : Value) :
    Obeys P (Library.atomAddress b v) fun a => v = .ref .atom a := by
  unfold Library.atomAddress
  split
  · exact pure rfl
  · exact refuse _ _ _ _

theorem readAtom (a : Address) : Obeys P (Library.readAtom a) ⊤ := by
  refine (object a).andThen fun _ => ?_
  split
  · exact done _
  · exact defect (P.ordinary trivial)

/-- Only the content of an atom is overwritten. -/
theorem writeAtom {a : Address} (ha : P.writes a) (v : Value) : Obeys P (Library.writeAtom a v) ⊤ := by
  intro s hs
  have absent {e : Stop} {t : Session} (h : Library.readAtom a s = .error e t) :
      Ends P s ⊤ (Library.writeAtom a v s) := by
    have read := readAtom (P := P) a s hs
    rw [h] at read
    unfold Library.writeAtom
    rw [Eval.bind_eq_of_error h]
    cases e with
    | fault f => exact .fault read.1 read.2
    | outOfFuel => exact read
  cases ho : s.heap.get? a with
  | none => exact absent (Eval.bind_eq_of_error (Eval.object_eq_of_none ho))
  | some o =>
    have found := Eval.object_eq_of_get? ho
    cases o with
    | atom w =>
      have read : Library.readAtom a s = .ok w s := Eval.bind_eq_of_ok found
      unfold Library.writeAtom
      rw [Eval.bind_eq_of_ok read]
      exact .ok (.single (.setAtom ho ha v) rfl rfl rfl rfl rfl rfl) trivial
    | _ => exact absent (Eval.bind_eq_of_ok found)

theorem deref (args : List Value) : Obeys P (Library.deref args) ⊤ := by
  unfold Library.deref
  split
  · exact (atomAddress _ _).andThen fun _ => readAtom _
  · exact refuseCount _ _ _

theorem reset {args : List Value} (hw : ∀ a, Builtin.reset.written? args = some a → P.writes a) :
    Obeys P (Library.reset args) ⊤ := by
  unfold Library.reset
  split
  · refine (atomAddress _ _).bind fun a ha => ?_
    subst ha
    exact (writeAtom (hw a rfl) _).andThen fun _ => done _
  · exact refuseCount _ _ _

theorem compareAndSet {args : List Value}
    (hw : ∀ a, Builtin.compareAndSet.written? args = some a → P.writes a) :
    Obeys P (Library.compareAndSet args) ⊤ := by
  unfold Library.compareAndSet
  split
  · refine (atomAddress _ _).bind fun a ha => (readAtom _).andThen fun _ => ?_
    subst ha
    split
    · exact (writeAtom (hw a rfl) _).andThen fun _ => done _
    · exact done _
  · exact refuseCount _ _ _

/-! ### Text, failures and names -/

theorem joined (readably : Bool) (args : List Value) : Obeys P (Library.joined readably args) ⊤ :=
  get fun _ _ => done _

theorem str (args : List Value) : Obeys P (Library.str args) ⊤ := get fun _ _ => newString _

theorem prStr (args : List Value) : Obeys P (Library.prStr args) ⊤ :=
  (joined _ _).andThen fun _ => newString _

theorem print (readably : Bool) (ending : String) (args : List Value) :
    Obeys P (Library.print readably ending args) ⊤ :=
  (joined _ _).andThen fun _ => (write _).andThen fun _ => done _

theorem exInfo (args : List Value) : Obeys P (Library.exInfo args) ⊤ := by
  have described (message data : Value) : Obeys P (do
      let typeKey ← Eval.keyword "type"
      let type ← Eval.keyword "ex-info"
      let messageKey ← Eval.keyword "message"
      let dataKey ← Eval.keyword "data"
      Eval.newMap [(typeKey, type), (messageKey, message), (dataKey, data)]) ⊤ :=
    (keyword _).andThen fun _ => (keyword _).andThen fun _ => (keyword _).andThen fun _ =>
      (keyword _).andThen fun _ => newMap _
  unfold Library.exInfo
  split
  · split
    · exact described _ _
    · exact described _ _
    · exact refuse _ _ _ _
    · exact refuse _ _ _ _
  · exact refuseCount _ _ _

theorem field (b : Builtin) (name : String) (args : List Value) :
    Obeys P (Library.field b name args) ⊤ := by
  unfold Library.field
  split
  · exact (keyword _).andThen fun _ => (map? _).andThen fun _ => (keyOf _).andThen fun _ => done _
  · exact done _
  · exact refuseCount _ _ _

theorem display (v : Value) : Obeys P (Eval.display v) ⊤ := get fun _ _ => done _

theorem gensym (args : List Value) : Obeys P (Library.gensym args) ⊤ := by
  have start : Obeys P (Library.nameStart args) ⊤ := by
    unfold Library.nameStart
    split
    · exact done _
    · split
      · exact display _
      · exact display _
      · exact refuse _ _ _ _
    · exact refuseCount _ _ _
  exact start.andThen fun _ => (generateName _).andThen fun _ => (symbol _).weaken

theorem heapStats (args : List Value) : Obeys P (Library.heapStats args) ⊤ := by
  unfold Library.heapStats
  split
  · refine get fun _ _ => (mapEach (fun _ => ?_) _).andThen fun _ => newMap _
    exact (keyword _).andThen fun _ => done _
  · exact refuseCount _ _ _

/-! ### Built-ins that call functions -/

theorem filterM {p : Value → Eval Bool} (h : ∀ v, Obeys P (p v) ⊤) (vs : List Value) :
    Obeys P (vs.filterM p) ⊤ := by
  have collected (vs : List Value) (acc : List Value) : Obeys P (vs.filterAuxM p acc) ⊤ := by
    induction vs generalizing acc with
    | nil => exact done acc
    | cons v vs ih => exact (h v).andThen fun _ => ih _
  exact (collected vs []).andThen fun _ => done _

section

variable {call : Caller} (hc : call.Obedient P)
include hc

theorem apply (args : List Value) : Obeys P (Library.apply call args) ⊤ := by
  unfold Library.apply
  split
  · exact (elements _ _ _).andThen fun _ => hc _ _
  · exact refuseCount _ _ _

theorem map (args : List Value) : Obeys P (Library.map call args) ⊤ := by
  unfold Library.map
  split
  · refine (mapEach (fun _ => elements _ _ _) _).andThen fun _ => ?_
    split
    · exact (mapEach (hc _) _).andThen fun _ => newList _
    · exact newList _
  · exact refuseCount _ _ _

theorem filter (args : List Value) : Obeys P (Library.filter call args) ⊤ := by
  unfold Library.filter
  split
  · refine (elements _ _ _).andThen fun items => ?_
    refine (filterM (fun _ => ?_) items).andThen fun _ => newList _
    exact (hc _ _).andThen fun _ => done _
  · exact refuseCount _ _ _

theorem reduceFrom (f : Value) (start : Value) (items : List Value) :
    Obeys P (items.foldlM (fun acc y => call f [acc, y]) start) ⊤ :=
  foldlM (fun _ _ _ => hc _ _) trivial

theorem reduce (args : List Value) : Obeys P (Library.reduce call args) ⊤ := by
  unfold Library.reduce
  split
  · refine (elements _ _ _).andThen fun items => ?_
    cases items with
    | nil => exact hc _ _
    | cons x xs => exact reduceFrom hc _ _ _
  · exact (elements _ _ _).andThen fun _ => reduceFrom hc _ _ _
  · exact refuseCount _ _ _

theorem swap {args : List Value} (hw : ∀ a, Builtin.swap.written? args = some a → P.writes a) :
    Obeys P (Library.swap call args) ⊤ := by
  unfold Library.swap
  split
  · refine (atomAddress _ _).bind fun a ha => (readAtom _).andThen fun _ => ?_
    subst ha
    exact (hc _ _).andThen fun _ => (writeAtom (hw a rfl) _).andThen fun _ => done _
  · exact refuseCount _ _ _

theorem macroexpandOne (args : List Value) : Obeys P (Library.macroexpandOne call args) ⊤ := by
  unfold Library.macroexpandOne
  split
  · refine (formOfValue _).andThen fun _ => (expandOnce hc _).andThen fun _ => ?_
    split
    · exact valueOfForm _
    · exact done _
  · exact refuseCount _ _ _

theorem expandTimes (n : Nat) (form : Form) : Obeys P (Library.expandTimes call n form) ⊤ := by
  induction n generalizing form with
  | zero => exact done _
  | succ n ih =>
    refine (expandOnce hc _).andThen fun _ => ?_
    split
    · exact (ih _).andThen fun _ => done _
    · exact done _

theorem macroexpand (args : List Value) : Obeys P (Library.macroexpand call args) ⊤ := by
  unfold Library.macroexpand
  split
  · refine (formOfValue _).andThen fun _ => get fun _ _ => (expandTimes hc _ _).andThen fun r => ?_
    obtain ⟨expansion, isExpanded⟩ := r
    cases isExpanded with
    | true => exact valueOfForm expansion
    | false => exact done _
  · exact refuseCount _ _ _

/-- **Every built-in obeys**, if the atom that it writes may be written. -/
theorem run (b : Builtin) (args : List Value) (hw : ∀ a, b.written? args = some a → P.writes a) :
    Obeys P (Library.run call b args) ⊤ := by
  have elementOf (b : Builtin) (f : List Value → Value) :
      Obeys P (do return f (← Library.onlyElements b args)) ⊤ :=
    (onlyElements _ _).andThen fun _ => done _
  -- The tests of types, which are left, differ in what they test only.
  cases b with
  | add => cases args <;> first | exact done _ | exact fold _ _ _
  | mul => cases args <;> first | exact done _ | exact fold _ _ _
  | sub =>
    rcases args with _ | ⟨x, _ | ⟨y, more⟩⟩
    · exact refuseCount _ _ _
    · exact settleOn _ (failsOrdinarily_negate _)
    · exact fold _ _ _
  | div =>
    rcases args with _ | ⟨x, _ | ⟨y, more⟩⟩
    · exact refuseCount _ _ _
    · exact settleOn _ (failsOrdinarily_arith _ _ _)
    · exact fold _ _ _
  | quot => exact divided _ _ _
  | rem => exact divided _ _ _
  | mod => exact divided _ _ _
  | inc => exact step _ _ _
  | dec => exact step _ _ _
  | max => exact extremum _ _ _
  | min => exact extremum _ _ _
  | eq => exact equality _ _ _
  | notEq => exact equality _ _ _
  | lt => exact chain _ _ _
  | gt => exact chain _ _ _
  | le => exact chain _ _ _
  | ge => exact chain _ _ _
  | identical => exact identical _
  | isSequential => exact isSequential _
  | isZero => exact signTest _ _ _
  | isPos => exact signTest _ _ _
  | isNeg => exact signTest _ _ _
  | isEven => exact parity _ _ _
  | isOdd => exact parity _ _ _
  | list => exact newList _
  | vector => exact newVector _
  | hashMap => exact hashMap _
  | hashSet => exact newSet _
  | conj => exact conj _
  | assoc => exact assoc _
  | dissoc => exact dissoc _
  | get => exact getFrom _
  | contains => exact contains _
  | keys => exact mapView _ _ _
  | vals => exact mapView _ _ _
  | first => exact elementOf _ _
  | second => exact elementOf _ _
  | last => exact elementOf _ _
  | rest => exact (onlyElements _ _).andThen fun _ => newList _
  | next => exact next _
  | cons => exact cons _
  | count => exact count _
  | nth => exact nth _
  | seq => exact seq _
  | concat => exact concat _
  | isEmpty => exact elementOf _ _
  | reverse => exact (onlyElements _ _).andThen fun _ => newList _
  | range => exact range _
  | apply => exact apply hc _
  | map => exact map hc _
  | filter => exact filter hc _
  | reduce => exact reduce hc _
  | atom =>
    rcases args with _ | ⟨x, _ | ⟨y, more⟩⟩
    · exact refuseCount _ _ _
    · exact new nofun
    · exact refuseCount _ _ _
  | deref => exact deref _
  | reset => exact reset hw
  | swap => exact swap hc hw
  | compareAndSet => exact compareAndSet hw
  | str => exact str _
  | prStr => exact prStr _
  | print => exact print _ _ _
  | println => exact print _ _ _
  | prn => exact print _ _ _
  | exInfo => exact exInfo _
  | exData => exact field _ _ _
  | exMessage => exact field _ _ _
  | gensym => exact gensym _
  | heapStats => exact heapStats _
  | macroexpandOne => exact macroexpandOne hc _
  | macroexpand => exact macroexpand hc _
  | _ => exact typeTest _ _ _

end

end Obeys

end TwinLisp
