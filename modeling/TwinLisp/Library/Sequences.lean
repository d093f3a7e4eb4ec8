import TwinLisp.Library.Arguments

/-!
# Built-ins on sequences

Access to the elements of anything that has some, and the construction of lists from them.
-/

namespace TwinLisp.Library

/-- The elements of the only argument. -/
def onlyElements (b : Builtin) : List Value → Eval (List Value)
  | [x] => elements b 0 x
  | args => refuseCount b (.exactly 1) args

/-- The first element. -/
def first (args : List Value) : Eval Value := return (← onlyElements .first args).head?.getD .nil

/-- The second element. -/
def second (args : List Value) : Eval Value := return (← onlyElements .second args)[1]?.getD .nil

/-- The last element. -/
def last (args : List Value) : Eval Value := return (← onlyElements .last args).getLast?.getD .nil

/-- The elements after the first, which may be none. -/
def rest (args : List Value) : Eval Value := do
  Eval.newList ((← onlyElements .rest args).drop 1)

/-- The elements after the first; `nil` if there are none. -/
def next (args : List Value) : Eval Value := do
  match (← onlyElements .next args).drop 1 with
  | [] => return .nil
  | items => Eval.newList items

/-- The elements; `nil` if there are none. A list is its own sequence. -/
def seq (args : List Value) : Eval Value := do
  match ← onlyElements .seq args, args with
  | [], _ => return .nil
  | _, [.ref .list a] => return .ref .list a
  | items, _ => Eval.newList items

/-- Whether there are no elements. -/
def isEmpty (args : List Value) : Eval Value :=
  return .bool (← onlyElements .isEmpty args).isEmpty

/-- The elements in reverse. -/
def reverse (args : List Value) : Eval Value := do
  Eval.newList (← onlyElements .reverse args).reverse

/-- A value in front of some elements. -/
def cons : List Value → Eval Value
  | [x, coll] => do Eval.newList (x :: (← elements .cons 1 coll))
  | args => refuseCount .cons (.exactly 2) args

/-- The elements of all arguments. -/
def concat (args : List Value) : Eval Value := do
  let parts ← args.zipIdx.mapM fun x => elements .concat x.2 x.1
  Eval.newList parts.flatten

/-- The number of elements of a value. -/
def countOf (coll : Value) : Eval Nat :=
  match coll with
  | .nil => return 0
  | .ref .map _ => return ((← Eval.map? coll).getD .empty).size
  | .ref .set _ => return ((← Eval.set? coll).getD .empty).size
  | .ref .str _ => return ((← Eval.string? coll).getD "").length
  | .ref .list _ => return ((← Eval.items? coll).getD []).length
  | .ref .vector _ => return ((← Eval.items? coll).getD []).length
  | _ => refuse .count 0 "collection" coll

/-- The number of elements of the only argument. -/
def count : List Value → Eval Value
  | [coll] => return .int (.ofNat (← countOf coll))
  | args => refuseCount .count (.exactly 1) args

/-- The element at an index, or a default if there is none. -/
def nthOf (coll index : Value) (default : Option Value) : Eval Value := do
  let items ← elements .nth 0 coll
  let i := (← integer .nth 1 index).toInt
  match if 0 ≤ i then items[i.toNat]? else none, default with
  | some v, _ => return v
  | none, some v => return v
  | none, none => Eval.failAt 1 (.indexOutOfBounds i items.length)

/-- The element at an index. -/
def nth : List Value → Eval Value
  | [coll, index] => nthOf coll index none
  | [coll, index, default] => nthOf coll index (some default)
  | args => refuseCount .nth (.between 2 3) args

end TwinLisp.Library
