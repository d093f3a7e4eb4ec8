import TwinLisp.Heap.Basic

/-!
# Equality

When two values are equal as data, and the keys by which collections find them. Integers and floats
are never equal to each other; lists and vectors are equal if their elements are; maps and sets are
compared by contents; functions, atoms and host objects by identity.

Both notions look through references. A chain of references through data is no longer than there are
slots, because data only refers to what was there before it; atoms, through which chains could
close, are not looked into.

## Main definitions

* `Heap.key` is the key of a value.
* `Heap.equal` is equality. It differs from equality of keys in that a not-a-number equals nothing.

Both fail with the address of an object that was reclaimed.
-/

namespace TwinLisp

namespace Value

/-- The key of a value that is not data on the heap; otherwise the address of the data. -/
def plainKey : Value → Key ⊕ Address
  | .nil => .inl .ofNil
  | .bool b => .inl (.ofBool b)
  | .int n => .inl (.ofInt n)
  | .float x => .inl (.ofFloat x)
  | .char c => .inl (.ofChar c)
  | .symbol s => .inl (.ofSymbol s)
  | .keyword s => .inl (.ofKeyword s)
  | .ref .function a => .inl (.ofAddress a)
  | .ref .atom a => .inl (.ofAddress a)
  | .ref .host a => .inl (.ofAddress a)
  | .ref _ a => .inr a

end Value

namespace Heap

/-- The key of a value, looking through at most `fuel` references in a row. -/
def keyWithin (h : Heap) : Nat → Value → Except Address Key
  | 0, v =>
    match v.plainKey with
    | .inl k => .ok k
    | .inr a => .error a
  | fuel + 1, v =>
    match v.plainKey with
    | .inl k => .ok k
    | .inr a =>
      match h.get? a with
      | none => .error a
      | some (.str s) => .ok (.ofString s)
      | some (.list items _) => (items.mapM (keyWithin h fuel)).map .ofSequence
      | some (.vector items _) => (items.mapM (keyWithin h fuel)).map .ofSequence
      | some (.map m) => do
        let entries ← m.toList.mapM fun e => do
          return (← keyWithin h fuel e.1, ← keyWithin h fuel e.2)
        return .ofMap entries
      | some (.set s) => (s.toList.mapM (keyWithin h fuel)).map .ofSet
      | some (.function _) => .ok (.ofAddress a)
      | some (.atom _) => .ok (.ofAddress a)
      | some (.host _) => .ok (.ofAddress a)

/-- The key of a value. -/
def key (h : Heap) (v : Value) : Except Address Key := h.keyWithin (h.slots.size + 1) v

/-- The object with the given address, or the address itself. -/
def find (h : Heap) (a : Address) : Except Address Object :=
  match h.get? a with
  | some o => .ok o
  | none => .error a

/-- Whether `p` holds of all items, in order and up to the first of which it does not. -/
def allItems {α : Type} (p : α → Except Address Bool) : List α → Except Address Bool
  | [] => .ok true
  | x :: xs => do
    if ← p x then allItems p xs else return false

/-- Whether all items of two lists of one length are equal in pairs. -/
def allPairs (p : Value → Value → Except Address Bool) :
    List Value → List Value → Except Address Bool
  | x :: xs, y :: ys => do
    if ← p x y then allPairs p xs ys else return false
  | [], [] => .ok true
  | _, _ => .ok false

/-- Whether the objects with two addresses are equal, where `equal` compares their parts. -/
def equalObjects (h : Heap) (equal : Value → Value → Except Address Bool) (a b : Address) :
    Except Address Bool := do
  match ← h.find a, ← h.find b with
  | .str s, .str t => return s == t
  | .list xs _, .list ys _ | .list xs _, .vector ys _
  | .vector xs _, .list ys _ | .vector xs _, .vector ys _ =>
    if xs.length == ys.length then allPairs equal xs ys else return false
  | .map m, .map n =>
    if m.size != n.size then return false
    allItems (fun e => do
      match n.value? (← h.key e.1) with
      | some other => equal e.2 other
      | none => return false) m.toList
  | .set s, .set t =>
    if s.size != t.size then return false
    allItems (fun v => return t.contains (← h.key v)) s.toList
  | _, _ => return false

/-- Whether two values are equal, looking through at most `fuel` references in a row. -/
def equalWithin (h : Heap) : Nat → Value → Value → Except Address Bool
  | fuel, .ref k a, .ref l b =>
    match k, l with
    | .function, .function | .atom, .atom | .host, .host => .ok (a == b)
    | .list, .list | .list, .vector | .vector, .list | .vector, .vector =>
      if a == b then .ok true
      else
        match fuel with
        | 0 => .error a
        | fuel + 1 => h.equalObjects (equalWithin h fuel) a b
    | .str, .str | .map, .map | .set, .set =>
      match fuel with
      | 0 => .error a
      | fuel + 1 => h.equalObjects (equalWithin h fuel) a b
    | _, _ => .ok false
  | _, .float x, .float y => .ok (x.eq y)
  | _, v, w => .ok (v.identical w)

/-- Whether two values are equal. -/
def equal (h : Heap) (v w : Value) : Except Address Bool := h.equalWithin (h.slots.size + 1) v w

end Heap

end TwinLisp
