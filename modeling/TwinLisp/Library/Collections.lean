import TwinLisp.Library.Arguments
import TwinLisp.Session.Printer

/-!
# Built-ins on collections

Construction, lookup and update of lists, vectors, maps and sets. No collection ever changes; an
update makes a new one.

## Main definitions

* `lookup?` is what all lookups share.
* `callData`: keywords, maps, sets and vectors look things up when they are called as functions.
-/

namespace TwinLisp.Library

/-! ### Lookup -/

/-- The position that a value gives, if it is an integer that is not negative. -/
def index? : Value → Option Nat
  | .int i => if 0 ≤ i.toInt then some i.toInt.toNat else none
  | _ => none

/-- What a collection holds under a key: a map its value, a set its member, a vector or a string the
element at that index. Other values hold nothing. -/
def lookup? (coll key : Value) : Eval (Option Value) :=
  match coll with
  | .ref .map _ => do
    match ← Eval.map? coll with
    | some m => return m.value? (← Eval.keyOf key)
    | none => return none
  | .ref .set _ => do
    match ← Eval.set? coll with
    | some s => return s.get? (← Eval.keyOf key)
    | none => return none
  | .ref .vector _ =>
    match index? key with
    | some i => return ((← Eval.items? coll).getD [])[i]?
    | none => return none
  | .ref .str _ =>
    match index? key with
    | some i => return (((← Eval.string? coll).getD "").toList[i]?).map .char
    | none => return none
  | _ => return none

/-- What a collection holds under a key, or else a default. -/
def getFrom : List Value → Eval Value
  | [coll, key] => return (← lookup? coll key).getD .nil
  | [coll, key, default] => return (← lookup? coll key).getD default
  | args => refuseCount .get (.between 2 3) args

/-- The key of a value, unless the value refers to something that was reclaimed. -/
def keyIfAny (v : Value) : Eval (Option Key) := do
  match (← get).heap.key v with
  | .ok k => return some k
  | .error _ => return none

/-- Whether a collection has a key. -/
def contains : List Value → Eval Value
  | [coll, key] =>
    match coll with
    | .nil => return .bool false
    | .ref .map _ => do
      let m := (← Eval.map? coll).getD .empty
      return .bool ((← keyIfAny key).any m.contains)
    | .ref .set _ => do
      let s := (← Eval.set? coll).getD .empty
      return .bool ((← keyIfAny key).any s.contains)
    | .ref .vector _ =>
      match index? key with
      | some i => return .bool (i < ((← Eval.items? coll).getD []).length)
      | none => return .bool false
    | _ => refuse .contains 0 "associative collection" coll
  | args => refuseCount .contains (.exactly 2) args

/-- A list of what the entries of a map show; `nil` if there are none. -/
def mapView (b : Builtin) (view : Value × Value → Value) : List Value → Eval Value
  | [.nil] => return .nil
  | [.ref .map a] => do
    let m := (← Eval.map? (.ref .map a)).getD .empty
    if m.isEmpty then return .nil
    Eval.newList (m.toList.map view)
  | [v] => refuse b 0 "map" v
  | args => refuseCount b (.exactly 1) args

/-! ### Construction and update -/

/-- A new map of alternating keys and values. -/
def hashMap (args : List Value) : Eval Value :=
  if args.length % 2 == 1 then
    Eval.failWith (.typeMismatch Builtin.hashMap.name "even number of arguments" "odd number")
  else Eval.newMap (pairUp args)

/-- Add what argument `i` contributes to a map: an entry or those of another map. -/
def addEntry (m : OrderedMap) (i : Nat) (entry : Value) : Eval OrderedMap :=
  match entry with
  | .ref .vector _ => do
    match ← Eval.items? entry with
    | some [k, v] => Eval.insertEntries m [(k, v)]
    | _ => refuse .conj i "map entry" entry
  | .ref .map _ => do
    Eval.insertEntries m ((← Eval.map? entry).getD .empty).toList
  | .nil => return m
  | _ => refuse .conj i "map entry" entry

/-- Add values to a collection, each where it is cheapest: to the front of a list, to the end of a
vector. -/
def conj : List Value → Eval Value
  | [] => Eval.newVector []
  | coll :: xs =>
    match coll with
    | .nil => Eval.newList xs.reverse
    | .ref .list _ => do
      Eval.newList (xs.reverse ++ (← Eval.items? coll).getD [])
    | .ref .vector _ => do
      Eval.newVector ((← Eval.items? coll).getD [] ++ xs)
    | .ref .set _ => do
      let s := (← Eval.set? coll).getD .empty
      Eval.new (.set (← Eval.insertMembers s xs))
    | .ref .map _ => do
      let m := (← Eval.map? coll).getD .empty
      let m ← xs.zipIdx.foldlM (fun m x => addEntry m (x.2 + 1) x.1) m
      Eval.new (.map m)
    | _ => refuse .conj 0 "collection" coll

/-- Replace elements of a vector; `pairs` holds indices and values, from argument `i` on. An index
just behind the end adds an element. -/
def replaceItems (items : List Value) (i : Nat) : List (Value × Value) → Eval (List Value)
  | [] => return items
  | (key, v) :: pairs =>
    match key with
    | .int n =>
      let k := n.toInt
      if k < 0 || items.length < k.toNat then
        Eval.failAt i (.indexOutOfBounds k items.length)
      else if k.toNat == items.length then replaceItems (items ++ [v]) (i + 2) pairs
      else replaceItems (items.set k.toNat v) (i + 2) pairs
    | _ => refuse .assoc i "integer" key

/-- Put values under keys. -/
def assoc : List Value → Eval Value
  | coll :: first :: second :: more =>
    let args := first :: second :: more
    if args.length % 2 == 1 then refuseCount .assoc (.atLeast 3) (coll :: args)
    else
      match coll with
      | .nil => Eval.newMap (pairUp args)
      | .ref .map _ => do
        let m := (← Eval.map? coll).getD .empty
        Eval.new (.map (← Eval.insertEntries m (pairUp args)))
      | .ref .vector _ => do
        let items := (← Eval.items? coll).getD []
        Eval.newVector (← replaceItems items 1 (pairUp args))
      | _ => refuse .assoc 0 "map or vector" coll
  | args => refuseCount .assoc (.atLeast 3) args

/-- Take keys out of a map. -/
def dissoc : List Value → Eval Value
  | [] => refuseCount .dissoc (.atLeast 1) []
  | coll :: keys =>
    match coll with
    | .nil => return .nil
    | .ref .map _ => do
      let m := (← Eval.map? coll).getD .empty
      Eval.new (.map (← keys.foldlM (fun m k => return m.erase (← Eval.keyOf k)) m))
    | _ => refuse .dissoc 0 "map" coll

/-! ### Collections as functions -/

/-- Call a value that is data. The arguments are refused under the name of the collection's type, or
of the keyword itself. -/
def callData (f : Value) (args : List Value) : Eval Value :=
  let refuseCount := fun name accepts => Eval.failWith (.arity name accepts args.length)
  match f with
  | .keyword _ =>
    match args with
    | [coll] => return (← lookup? coll f).getD .nil
    | [coll, default] => return (← lookup? coll f).getD default
    | _ => do refuseCount ((← get).text false f) (.between 1 2)
  | .ref .map _ =>
    match args with
    | [key] => return (← lookup? f key).getD .nil
    | [key, default] => return (← lookup? f key).getD default
    | _ => refuseCount "map" (.between 1 2)
  | .ref .set _ =>
    match args with
    | [key] => return (← lookup? f key).getD .nil
    | _ => refuseCount "set" (.exactly 1)
  | .ref .vector _ =>
    match args with
    | [key] => do
      let items := (← Eval.items? f).getD []
      match key with
      | .int n =>
        match (index? key).bind fun i => items[i]? with
        | some v => return v
        | none => Eval.failAt 0 (.indexOutOfBounds n.toInt items.length)
      | _ => Eval.failAt 0 (.typeMismatch "vector" "integer" key.typeName)
    | _ => refuseCount "vector" (.exactly 1)
  | _ => Eval.failWith (.notCallable f.typeName)

end TwinLisp.Library
