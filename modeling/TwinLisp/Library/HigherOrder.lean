import TwinLisp.Expansion.Basic
import TwinLisp.Library.Arguments

/-!
# Built-ins that call functions

Application, mapping, filtering and reduction, and the update of an atom by a function. The functions
are called by whoever runs the program.
-/

namespace TwinLisp.Library

/-- Call a function with arguments the last of which are given as a sequence. -/
def apply (call : Caller) (args : List Value) : Eval Value := do
  match args with
  | f :: second :: more =>
    let others := second :: more
    let tail ← elements .apply others.length ((others.getLast?).getD .nil)
    call f (others.dropLast ++ tail)
  | _ => refuseCount .apply (.atLeast 2) args

/-- The first elements of some lists together, then the second ones, until a list ends. -/
def rows {α : Type} : List α → List (List α) → List (List α)
  | [], _ => []
  | x :: xs, others =>
    match others.mapM List.head? with
    | some heads => (x :: heads) :: rows xs (others.map List.tail)
    | none => []

/-- Call a function with the elements of one or more collections in turn. -/
def map (call : Caller) (args : List Value) : Eval Value := do
  match args with
  | f :: coll :: more =>
    match ← (coll :: more).zipIdx.mapM fun x => elements .map (x.2 + 1) x.1 with
    | xs :: others => Eval.newList (← (rows xs others).mapM (call f))
    | [] => Eval.newList []
  | _ => refuseCount .map (.atLeast 2) args

/-- The elements for which a function returns something true. -/
def filter (call : Caller) (args : List Value) : Eval Value := do
  match args with
  | [f, coll] =>
    let items ← elements .filter 1 coll
    Eval.newList (← items.filterM fun x => return (← call f [x]).isTruthy)
  | _ => refuseCount .filter (.exactly 2) args

/-- Combine elements from the left, starting with a given value or with the first element. A function
of no arguments answers for no elements at all. -/
def reduce (call : Caller) (args : List Value) : Eval Value := do
  match args with
  | [f, coll] =>
    match ← elements .reduce 1 coll with
    | [] => call f []
    | x :: xs => xs.foldlM (fun acc y => call f [acc, y]) x
  | [f, start, coll] =>
    let items ← elements .reduce 2 coll
    items.foldlM (fun acc y => call f [acc, y]) start
  | _ => refuseCount .reduce (.between 2 3) args

/-! ### Atoms -/

/-- The address of the atom that is argument zero. -/
def atomAddress (b : Builtin) : Value → Eval Address
  | .ref .atom a => pure a
  | v => refuse b 0 "atom" v

/-- What an atom holds. -/
def readAtom (a : Address) : Eval Value := do
  match ← Eval.object a with
  | .atom v => return v
  | o => Eval.defect (.unexpectedObject .atom o.kind)

/-- Make an atom hold a value. -/
def writeAtom (a : Address) (v : Value) : Eval Unit := do
  let _ ← readAtom a
  modify fun s => { s with heap := s.heap.set a (.atom v) }

/-- The content of an atom. -/
def deref : List Value → Eval Value
  | [v] => do readAtom (← atomAddress .deref v)
  | args => refuseCount .deref (.exactly 1) args

/-- Give an atom a new content. -/
def reset : List Value → Eval Value
  | [v, new] => do
    writeAtom (← atomAddress .reset v) new
    return new
  | args => refuseCount .reset (.exactly 2) args

/-- Give an atom the content that a function makes of the old one. -/
def swap (call : Caller) : List Value → Eval Value
  | v :: f :: args => do
    let a ← atomAddress .swap v
    let old ← readAtom a
    let new ← call f (old :: args)
    writeAtom a new
    return new
  | args => refuseCount .swap (.atLeast 2) args

/-- Give an atom a new content if the old one is the same as expected. -/
def compareAndSet : List Value → Eval Value
  | [v, old, new] => do
    let a ← atomAddress .compareAndSet v
    if (← readAtom a).identical old then
      writeAtom a new
      return .bool true
    else return .bool false
  | args => refuseCount .compareAndSet (.exactly 3) args

end TwinLisp.Library
