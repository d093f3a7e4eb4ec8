import TwinLisp.Host.Dictionary
import TwinLisp.Session.Data

/-!
# Values of the host

A host works with types of its own. Each of them has a code, and for every code there is a way to make
a value of the language from a host value and a way back. The way back refuses values that are no
image of a host value of that type, except that a float may come from an integer, a list from `nil`,
and the keys of a dictionary from strings and symbols.

## Main definitions

* `HostType` lists the codes, and `HostType.Carrier` says which type a code stands for.
* `HostType.toValue` and `HostType.ofValue`.
-/

namespace TwinLisp

/-- The name of a keyword, as the host sees it. -/
structure KeywordName where
  /-- The name, without the colon. -/
  text : String
  deriving DecidableEq

/-- Codes for types of the host. -/
inductive HostType where
  | unit
  | bool
  | int32
  | int64
  | size
  | double
  | char
  | string
  | keyword
  /-- Any value of the language. -/
  | value
  | option (t : HostType)
  | list (t : HostType)
  | dictionary (t : HostType)
  deriving DecidableEq

namespace HostType

/-- The type that a code stands for. -/
def Carrier : HostType → Type
  | .unit => Unit
  | .bool => Bool
  | .int32 => Int32
  | .int64 => Int64
  | .size => UInt64
  | .double => Double
  | .char => Char
  | .string => String
  | .keyword => KeywordName
  | .value => Value
  | .option t => Option t.Carrier
  | .list t => List t.Carrier
  | .dictionary t => Dictionary t.Carrier

/-- Make a value of the language. Nothing is collected before a list or a dictionary is complete. -/
def toValue : (t : HostType) → t.Carrier → Eval Value
  | .unit, _ => return .nil
  | .bool, (b : Bool) => return .bool b
  | .int32, (n : Int32) => return .int n.toInt64
  | .int64, (n : Int64) => return .int n
  | .size, (n : UInt64) =>
    if n.toNat < Nat.pow 2 63 then return .int n.toInt64 else Eval.failWith .hostOverflow
  | .double, (x : Double) => return .float x
  | .char, (c : Char) => return .char c
  | .string, (s : String) => Eval.newString s
  | .keyword, (k : KeywordName) => Eval.keyword k.text
  | .value, (v : Value) => return v
  | .option _, none => return .nil
  | .option t, some x => t.toValue x
  | .list t, (xs : List t.Carrier) => Eval.withoutCollection do
    Eval.newVector (← xs.mapM t.toValue)
  | .dictionary t, (d : Dictionary t.Carrier) => Eval.withoutCollection do
    Eval.newMap (← d.entries.mapM fun e => do
      let k ← Eval.keyword e.1
      let v ← t.toValue e.2
      return (k, v))

/-- Refuse a value that is not what was expected. -/
def refuse {α : Type} (expected : String) (v : Value) : Eval α :=
  Eval.failWith (.typeMismatch "Cannot convert value" expected v.typeName)

/-- The integer that a value is. -/
def integer (v : Value) : Eval Int64 :=
  match v with
  | .int n => return n
  | _ => refuse "integer" v

/-- The text of a string. -/
def text (v : Value) : Eval String := do
  match ← Eval.string? v with
  | some s => return s
  | none => refuse "string" v

/-- The text of a key. -/
def keyText (v : Value) : Eval String :=
  match v with
  | .keyword name => Eval.nameOf name
  | .symbol name => Eval.nameOf name
  | _ => text v

/-- Make a value of the host. -/
def ofValue : (t : HostType) → Value → Eval t.Carrier
  | .unit, v =>
    match v with
    | .nil => return ()
    | _ => refuse "nil" v
  | .bool, v =>
    match v with
    | .bool b => (return b : Eval Bool)
    | _ => refuse "boolean" v
  | .int32, v => do
    let n ← integer v
    if n.toInt32.toInt64 == n then (return n.toInt32 : Eval Int32)
    else Eval.failWith (.tooLargeForInt32 n.toInt)
  | .int64, v => integer v
  | .size, v => do
    let n ← integer v
    if 0 ≤ n then (return n.toUInt64 : Eval UInt64) else Eval.failWith (.notASize n.toInt)
  | .double, v =>
    match v with
    | .float x => (return x : Eval Double)
    | .int n => (return .ofInt64 n : Eval Double)
    | _ => refuse "number" v
  | .char, v =>
    match v with
    | .char c => (return c : Eval Char)
    | _ => refuse "character" v
  | .string, v => text v
  | .keyword, v =>
    match v with
    | .keyword name => do return ⟨← Eval.nameOf name⟩
    | _ => refuse "keyword" v
  | .value, v => (return v : Eval Value)
  | .option t, v =>
    match v with
    | .nil => (return none : Eval (Option t.Carrier))
    | _ => do
      let x ← t.ofValue v
      (return some x : Eval (Option t.Carrier))
  | .list t, v =>
    match v with
    | .nil => (return [] : Eval (List t.Carrier))
    | _ => do
      match ← Eval.items? v with
      | some items => items.mapM t.ofValue
      | none => refuse "vector or list" v
  | .dictionary t, v => do
    match ← Eval.map? v with
    | none => refuse "map" v
    | some m =>
      let entries ← m.toList.mapM fun e => do
        let k ← keyText e.1
        let x ← t.ofValue e.2
        return (k, x)
      (return .ofEntries entries : Eval (Dictionary t.Carrier))

end HostType

end TwinLisp
