/-!
# Native functions

The functions that are not written in the language. A *built-in* is one of a fixed set; a *host
function* is one that the embedding program registered, known here only by its position in that
program's table.

`Builtin.all` lists the built-ins in the order in which a session defines them, which is also the
order of their heap slots.
-/

namespace TwinLisp

/-- A built-in function. -/
inductive Builtin where
  | add
  | sub
  | mul
  | div
  | quot
  | rem
  | mod
  | inc
  | dec
  | max
  | min
  | eq
  | notEq
  | lt
  | gt
  | le
  | ge
  | identical
  | not
  | isNil
  | isNumber
  | isInt
  | isString
  | isSymbol
  | isKeyword
  | isList
  | isVector
  | isMap
  | isSet
  | isFn
  | isAtom
  | isSequential
  | isZero
  | isPos
  | isNeg
  | isEven
  | isOdd
  | list
  | vector
  | hashMap
  | hashSet
  | conj
  | assoc
  | dissoc
  | get
  | contains
  | keys
  | vals
  | first
  | second
  | last
  | rest
  | next
  | cons
  | count
  | nth
  | seq
  | concat
  | isEmpty
  | reverse
  | range
  | apply
  | map
  | filter
  | reduce
  | atom
  | deref
  | reset
  | swap
  | compareAndSet
  | str
  | prStr
  | print
  | println
  | prn
  | exInfo
  | exData
  | exMessage
  | gensym
  | heapStats
  | macroexpandOne
  | macroexpand
  deriving DecidableEq

namespace Builtin

/-- The name under which a built-in is defined. -/
def name : Builtin → String
  | .add => "+"
  | .sub => "-"
  | .mul => "*"
  | .div => "/"
  | .quot => "quot"
  | .rem => "rem"
  | .mod => "mod"
  | .inc => "inc"
  | .dec => "dec"
  | .max => "max"
  | .min => "min"
  | .eq => "="
  | .notEq => "not="
  | .lt => "<"
  | .gt => ">"
  | .le => "<="
  | .ge => ">="
  | .identical => "identical?"
  | .not => "not"
  | .isNil => "nil?"
  | .isNumber => "number?"
  | .isInt => "int?"
  | .isString => "string?"
  | .isSymbol => "symbol?"
  | .isKeyword => "keyword?"
  | .isList => "list?"
  | .isVector => "vector?"
  | .isMap => "map?"
  | .isSet => "set?"
  | .isFn => "fn?"
  | .isAtom => "atom?"
  | .isSequential => "sequential?"
  | .isZero => "zero?"
  | .isPos => "pos?"
  | .isNeg => "neg?"
  | .isEven => "even?"
  | .isOdd => "odd?"
  | .list => "list"
  | .vector => "vector"
  | .hashMap => "hash-map"
  | .hashSet => "hash-set"
  | .conj => "conj"
  | .assoc => "assoc"
  | .dissoc => "dissoc"
  | .get => "get"
  | .contains => "contains?"
  | .keys => "keys"
  | .vals => "vals"
  | .first => "first"
  | .second => "second"
  | .last => "last"
  | .rest => "rest"
  | .next => "next"
  | .cons => "cons"
  | .count => "count"
  | .nth => "nth"
  | .seq => "seq"
  | .concat => "concat"
  | .isEmpty => "empty?"
  | .reverse => "reverse"
  | .range => "range"
  | .apply => "apply"
  | .map => "map"
  | .filter => "filter"
  | .reduce => "reduce"
  | .atom => "atom"
  | .deref => "deref"
  | .reset => "reset!"
  | .swap => "swap!"
  | .compareAndSet => "compare-and-set!"
  | .str => "str"
  | .prStr => "pr-str"
  | .print => "print"
  | .println => "println"
  | .prn => "prn"
  | .exInfo => "ex-info"
  | .exData => "ex-data"
  | .exMessage => "ex-message"
  | .gensym => "gensym"
  | .heapStats => "heap-stats"
  | .macroexpandOne => "macroexpand-1"
  | .macroexpand => "macroexpand"

/-- Every built-in, in the order in which a session defines them. -/
def all : List Builtin :=
  [.add, .sub, .mul, .div, .quot, .rem, .mod, .inc, .dec, .max, .min,
    .eq, .notEq, .lt, .gt, .le, .ge, .identical, .not,
    .isNil, .isNumber, .isInt, .isString, .isSymbol, .isKeyword, .isList, .isVector, .isMap, .isSet,
    .isFn, .isAtom, .isSequential, .isZero, .isPos, .isNeg, .isEven, .isOdd,
    .list, .vector, .hashMap, .hashSet, .conj, .assoc, .dissoc, .get, .contains, .keys, .vals,
    .first, .second, .last, .rest, .next, .cons, .count, .nth, .seq, .concat, .isEmpty, .reverse,
    .range, .apply, .map, .filter, .reduce,
    .atom, .deref, .reset, .swap, .compareAndSet,
    .str, .prStr, .print, .println, .prn,
    .exInfo, .exData, .exMessage,
    .gensym, .heapStats, .macroexpandOne, .macroexpand]

/-- No built-in is missing from the list. -/
theorem mem_all (b : Builtin) : b ∈ all := by
  cases b <;> decide

end Builtin

/-- A function that is not written in the language. -/
inductive Native where
  /-- One of the fixed set. -/
  | builtin (b : Builtin)
  /-- The registered host function at this position. -/
  | host (index : Nat)
  deriving DecidableEq

end TwinLisp
