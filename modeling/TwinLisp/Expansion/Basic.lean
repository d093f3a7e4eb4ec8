import TwinLisp.Expansion.Quotation
import TwinLisp.Expansion.Template

/-!
# Macro expansion

A macro is a function that is applied to the code of its arguments and returns the code to evaluate
in place of the call. Expansion replaces every macro call in a form, and every template, until none
is left. Quoted forms stay as they are, and a name that is bound around a call hides a macro of that
name.

An expansion that has no location of its own takes that of the call, or of the innermost form around
the call that has one.

Three bounds make expansion end: expansions may be nested only so deeply, templates disappear as they
are replaced, and everything else goes to smaller forms.

Collection is forbidden during expansion, as the values of arguments are not kept anywhere.

## Main definitions

* `Caller` is the way to call a function, whoever runs it.
* `Eval.expandCall` applies a macro once.
* `Eval.expand` expands a whole form, `Eval.expandHead` only as long as the form itself is a macro
  call, and `Eval.expandOnce` once.
-/

namespace TwinLisp

/-- A way to call a function value. -/
abbrev Caller := Value → List Value → Eval Value

/-- Where expansion stands. -/
structure ExpansionPlace where
  /-- The location of the innermost form around that has one. -/
  cursor : Location
  /-- The names bound around. -/
  locals : List String

namespace ExpansionPlace

/-- Inside a form at `l`. -/
def within (p : ExpansionPlace) (l : Location) : ExpansionPlace :=
  { p with cursor := l.orElse p.cursor }

/-- Where also `names` are bound. -/
def binding (p : ExpansionPlace) (names : List String) : ExpansionPlace :=
  { p with locals := names ++ p.locals }

/-- Where also the parameters `params` are bound. -/
def bindingParameters (p : ExpansionPlace) (params : Form) : ExpansionPlace :=
  p.binding ((params.items.filterMap Form.symbolName?).filter (· != "&"))

end ExpansionPlace

namespace Eval

/-! ### One macro call -/

/-- The macro that the head of `f` names, if it names one. -/
def macroCalled? (p : ExpansionPlace) (f : Form) : Eval (Option (String × Value)) := do
  match f.headSymbol? with
  | none => return none
  | some name =>
    if (SpecialForm.ofName? name).isSome || p.locals.contains name then return none
    let s ← get
    match (s.symbols.find? name).bind s.global? with
    | none => return none
    | some v =>
      match s.heap.objectOf? v with
      | some (.function fn) => return if fn.isMacro then some (name, v) else none
      | _ => return none

/-- Replace the location of an expansion that has none. -/
def placed (site : Location) (f : Form) : Form :=
  if f.location.isKnown then f else f.withLocation site

/-- Apply a macro to the arguments of `f`, with so many nested expansions left. -/
def expandCall (call : Caller) (remaining : Nat) (p : ExpansionPlace) (name : String)
    (transformer : Value) (f : Form) : Eval Form := do
  let site := f.location.orElse p.cursor
  if remaining == 0 then
    let limit := (← get).limits.macroDepth
    fail ((Fault.of (.expansionTooDeep name limit)).located site)
  let args ← valuesOfForms (f.items.drop 1)
  let v ← attributed site [] (call transformer args)
  return placed site (← formOfValue v)

/-! ### Everything in a form -/

/-- What to do with the parts of a form that do not expand into parts of that form. -/
structure ExpansionHooks where
  /-- Expand the call of the named macro, and then its expansion. -/
  onMacro : ExpansionPlace → String → Value → Form → Eval Form
  /-- Replace a template by the code it stands for, and expand that. -/
  onTemplate : ExpansionPlace → Form → Eval Form

mutual

/-- Expand everything in a form. -/
def expandWith (hooks : ExpansionHooks) (p : ExpansionPlace) : Form → Eval Form
  | .leaf d l => return .leaf d l
  | .group .list [] l => return .list [] l
  | .group .list (head :: rest) l => do
    let p := p.within l
    match (head.symbolName?).bind SpecialForm.ofName? with
    | some .quote => return .list (head :: rest) l
    | some .template =>
      match rest with
      | [template] => hooks.onTemplate p template
      | _ => fail (malformed "syntax-quote" .takesOneForm p.cursor)
    | some .function =>
      match rest with
      | [] => return .list [head] l
      | first :: more =>
        match first.symbolName? with
        | some name =>
          let more ← expandOverloads hooks (p.binding [name]) more
          return .list (head :: first :: more) l
        | none =>
          let rest ← expandOverloads hooks p (first :: more)
          return .list (head :: rest) l
    | some .macroDefinition =>
      match rest with
      | [] => return .list [head] l
      | name :: doc :: more =>
        if doc.isString && !more.isEmpty then
          let more ← expandOverloads hooks p more
          return .list (head :: name :: doc :: more) l
        else
          let more ← expandOverloads hooks p (doc :: more)
          return .list (head :: name :: more) l
      | [name] => return .list [head, name] l
    | some .letBinding | some .loop =>
      match rest with
      | [] => return .list [head] l
      | .group .vector pairs vl :: body =>
        let (pairs, q) ← expandPairs hooks p pairs
        let body ← expandAll hooks q body
        return .list (head :: .vector pairs vl :: body) l
      | bindings :: body =>
        let body ← expandAll hooks p body
        return .list (head :: bindings :: body) l
    | some .attempt => return .list (head :: (← expandClauses hooks p rest)) l
    | some _ => return .list (← expandAll hooks p (head :: rest)) l
    | none =>
      match ← macroCalled? p (.list (head :: rest) l) with
      | some (name, v) => hooks.onMacro p name v (.list (head :: rest) l)
      | none => return .list (← expandAll hooks p (head :: rest)) l
  | .group b items l => return .group b (← expandAll hooks (p.within l) items) l
termination_by f => 2 * sizeOf f

/-- Expand everything in some forms. -/
def expandAll (hooks : ExpansionHooks) (p : ExpansionPlace) : List Form → Eval (List Form)
  | [] => return []
  | f :: fs => do
    let g ← expandWith hooks p f
    let gs ← expandAll hooks p fs
    return g :: gs
termination_by fs => 2 * sizeOf fs

/-- Expand the bodies of a function: either one parameter vector and its body, or clauses. -/
def expandOverloads (hooks : ExpansionHooks) (p : ExpansionPlace) : List Form → Eval (List Form)
  | .group .vector params l :: body => do
    let body ← expandAll hooks (p.bindingParameters (.vector params l)) body
    return .vector params l :: body
  | clauses => expandOverloadClauses hooks p clauses
termination_by fs => 2 * sizeOf fs + 1

/-- Expand the bodies in the clauses of a function with several overloads. -/
def expandOverloadClauses (hooks : ExpansionHooks) (p : ExpansionPlace) :
    List Form → Eval (List Form)
  | [] => return []
  | .group .list (params :: body) l :: rest => do
    let body ← expandAll hooks ((p.within l).bindingParameters params) body
    let rest ← expandOverloadClauses hooks p rest
    return .list (params :: body) l :: rest
  | clause :: rest => do
    let rest ← expandOverloadClauses hooks p rest
    return clause :: rest
termination_by fs => 2 * sizeOf fs

/-- Expand the values in a binding vector, each with the names before it bound. The second part of the
result is the place behind the vector, where all of its names are bound. -/
def expandPairs (hooks : ExpansionHooks) (p : ExpansionPlace) :
    List Form → Eval (List Form × ExpansionPlace)
  | [] => return ([], p)
  | [name] => return ([name], p.binding name.symbolName?.toList)
  | name :: value :: rest => do
    let value ← expandWith hooks p value
    let (rest, q) ← expandPairs hooks (p.binding name.symbolName?.toList) rest
    return (name :: value :: rest, q)
termination_by fs => 2 * sizeOf fs

/-- Expand the body and the clauses of a `try`. -/
def expandClauses (hooks : ExpansionHooks) (p : ExpansionPlace) : List Form → Eval (List Form)
  | [] => return []
  | .group .list (head :: type :: binding :: body) l :: rest => do
    let clause ←
      if head.symbolName? == some "catch" then do
        let body ← expandAll hooks ((p.within l).binding binding.symbolName?.toList) body
        pure (.list (head :: type :: binding :: body) l)
      else expandWith hooks p (.group .list (head :: type :: binding :: body) l)
    let rest ← expandClauses hooks p rest
    return clause :: rest
  | clause :: rest => do
    let clause ← expandWith hooks p clause
    let rest ← expandClauses hooks p rest
    return clause :: rest
termination_by fs => 2 * sizeOf fs

end

/-- Expand a form that holds at most so many templates. -/
def expandWithin (onMacro : ExpansionPlace → String → Value → Form → Eval Form) :
    Nat → ExpansionPlace → Form → Eval Form
  -- A form without templates never reaches the hook.
  | 0, p, f => expandWith ⟨onMacro, fun _ t => Template.builder t⟩ p f
  | n + 1, p, f =>
    expandWith ⟨onMacro, fun p t => do expandWithin onMacro n p (← Template.builder t)⟩ p f

/-- Expand a form, with so many nested expansions left. -/
def expandAt (call : Caller) : Nat → ExpansionPlace → Form → Eval Form
  | 0, p, f => expandWithin (expandCall call 0) f.templates p f
  | remaining + 1, p, f =>
    expandWithin
      (fun p name v g => do
        expandAt call remaining p (← expandCall call (remaining + 1) p name v g))
      f.templates p f

/-- Expand every macro call in a form. -/
def expand (call : Caller) (f : Form) : Eval Form := withoutCollection do
  expandAt call (← get).limits.macroDepth ⟨.unknown, []⟩ f

/-! ### The head of a form -/

/-- Expand a form as long as it is a macro call, at most `remaining` times. -/
def expandHeadAt (call : Caller) : Nat → Location → Form → Eval Form
  | 0, cursor, f => do
    match ← macroCalled? ⟨cursor, []⟩ f with
    | some (name, v) => expandCall call 0 ⟨cursor, []⟩ name v f
    | none => return f
  | remaining + 1, cursor, f => do
    match ← macroCalled? ⟨cursor, []⟩ f with
    | some (name, v) =>
      let g ← expandCall call (remaining + 1) ⟨cursor, []⟩ name v f
      expandHeadAt call remaining (g.location.orElse cursor) g
    | none => return f

/-- Expand a form only as long as it is a macro call. -/
def expandHead (call : Caller) (f : Form) : Eval Form := withoutCollection do
  expandHeadAt call (← get).limits.macroDepth f.location f

/-- Expand a form once, if it is a macro call. -/
def expandOnce (call : Caller) (f : Form) : Eval (Option Form) := withoutCollection do
  let p : ExpansionPlace := ⟨f.location, []⟩
  match ← macroCalled? p f with
  | some (name, v) => return some (← expandCall call (← get).limits.macroDepth p name v f)
  | none => return none

end Eval

end TwinLisp
