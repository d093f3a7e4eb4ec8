import TwinLisp.Fault.Basic
import TwinLisp.Syntax.Form

/-!
# Special forms

The forms that the evaluators treat by rules of their own, and their shapes. Everything that looks
into a special form does it through the functions here, so that a malformed form is noticed in the
same way, with the same wording and the same blame, whoever looks.

Some special forms have a second name with a star, which means the same.

## Main definitions

* `SpecialForm` and its names.
* `Shape.function`, `Shape.macroDefinition`, `Shape.bindings`, `Shape.definition` and `Shape.attempt`
  take the parts of a form apart.
-/

namespace TwinLisp

/-- A special form. -/
inductive SpecialForm where
  | quote
  /-- A template, which expansion replaces by code that builds it. -/
  | template
  | conditional
  | sequence
  | letBinding
  | loop
  | function
  | definition
  | macroDefinition
  | recur
  | raise
  | attempt
  /-- The clause of `try` that handles a failure. -/
  | handler
  /-- The clause of `try` that always runs. -/
  | cleanup
  deriving DecidableEq

/-- The special form with the given name. -/
def SpecialForm.ofName? : String → Option SpecialForm
  | "quote" => some .quote
  | "syntax-quote" => some .template
  | "if" => some .conditional
  | "do" => some .sequence
  | "let" => some .letBinding
  | "let*" => some .letBinding
  | "loop" => some .loop
  | "loop*" => some .loop
  | "fn" => some .function
  | "fn*" => some .function
  | "def" => some .definition
  | "defmacro" => some .macroDefinition
  | "recur" => some .recur
  | "throw" => some .raise
  | "try" => some .attempt
  | "catch" => some .handler
  | "finally" => some .cleanup
  | _ => none

/-- The special form that a list is, if it is one. -/
def Form.special? (f : Form) : Option SpecialForm := f.headSymbol?.bind SpecialForm.ofName?

/-- A malformation of the special form named `form`, blamed on `l`. -/
def malformed (form : String) (what : Malformation) (l : Location) : Fault :=
  (Fault.of (.malformed form what)).located l

/-- A parameter list and the forms to evaluate with it. -/
structure OverloadShape where
  /-- The names of the fixed parameters. -/
  params : List String
  /-- The name of the parameter for further arguments. -/
  rest : Option String
  /-- The forms to evaluate. -/
  body : List Form
  /-- Where the parameter list stands, or the clause that holds it. -/
  location : Location

namespace OverloadShape

/-- The names that the parameter list binds. -/
def names (o : OverloadShape) : List String := o.params ++ o.rest.toList

/-- The shape of the parameter list. -/
def overload (o : OverloadShape) : Overload := ⟨o.params.length, o.rest.isSome⟩

end OverloadShape

/-- The parts of a function form. -/
structure FunctionShape where
  /-- The name by which the function refers to itself. -/
  name : Option String
  /-- The parameter lists with their bodies. -/
  overloads : List OverloadShape

/-- A name and the form whose value it is bound to. -/
abbrev Binding := String × Form

/-- The parts of a `try` form. -/
structure AttemptShape where
  /-- The forms to evaluate. -/
  body : List Form
  /-- The handlers, each with the name it binds the failure to; only the first one counts. -/
  handlers : List (String × List Form)
  /-- The forms to evaluate in any case. -/
  cleanup : Option (List Form)

namespace Shape

/-- The name of a symbol that plays a role in the special form `form`. -/
def symbolName (form role : String) (f : Form) : Except Fault String :=
  match f.symbolName? with
  | some name => .ok name
  | none => .error (malformed form (.notASymbol role f.kindName) f.location)

/-- The items of a special form, its name first. -/
def listItems (form : String) (f : Form) : Except Fault (List Form) :=
  match f.listItems? with
  | some items => .ok items
  | none => .error (malformed form .notAList f.location)

/-! ### Functions -/

/-- The names of the parameters in a parameter vector at `l`, and the name of the rest parameter. -/
def parameterNames (form : String) (l : Location) :
    List Form → Except Fault (List String × Option String)
  | [] => .ok ([], none)
  | item :: more => do
    let name ← symbolName form "parameter" item
    if name == "&" then
      match more with
      | [last] => return ([], some (← symbolName form "rest parameter" last))
      | _ => throw (malformed form .restNotLast (item.location.orElse l))
    else
      let (names, rest) ← parameterNames form l more
      return (name :: names, rest)

/-- The overload with the given parameter vector. -/
def overload (form : String) (vector : Form) (body : List Form) (l : Location) :
    Except Fault OverloadShape := do
  match vector.vectorItems? with
  | none => throw (malformed form .parametersNotAVector vector.location)
  | some items =>
    let (params, rest) ← parameterNames form vector.location items
    return { params, rest, body, location := l }

/-- One clause of a function `whole` with several overloads. -/
def overloadClause (form : String) (whole clause : Form) : Except Fault OverloadShape :=
  let l := clause.location.orElse whole.location
  match clause.listItems? with
  | none => .error (malformed form .notAnOverload l)
  | some [] => .error (malformed form .emptyOverload l)
  | some (vector :: body) => overload form vector body clause.location

/-- The first overload whose number of fixed parameters, without a rest, occurred before. -/
def repeated? : List Nat → List OverloadShape → Option OverloadShape
  | _, [] => none
  | seen, o :: os =>
    if o.rest.isSome then repeated? seen os
    else if seen.contains o.params.length then some o
    else repeated? (o.params.length :: seen) os

/-- The overloads of the function form `whole`, whose items `rest` remain. -/
def overloads (form : String) (whole : Form) (rest : List Form) :
    Except Fault (List OverloadShape) := do
  let all ←
    match rest with
    | [] => throw (malformed form .missingParameters whole.location)
    | first :: body =>
      if first.vectorItems?.isSome then
        let only ← overload form first body first.location
        pure [only]
      else rest.mapM (overloadClause form whole)
  if 1 < all.countP (·.rest.isSome) then throw (malformed form .severalRests whole.location)
  match repeated? [] all with
  | some o => throw (malformed form .sameArity (o.location.orElse whole.location))
  | none => return all

/-- The parts of `(fn name? [params] body…)` or `(fn name? ([params] body…)…)`. -/
def function (f : Form) : Except Fault FunctionShape := do
  let rest := (← listItems "fn" f).drop 1
  match rest.head?.bind Form.symbolName? with
  | some name => return ⟨some name, ← overloads "fn" f (rest.drop 1)⟩
  | none => return ⟨none, ← overloads "fn" f rest⟩

/-- Drop a documentation string, unless nothing follows it. -/
def withoutDocumentation (rest : List Form) : List Form :=
  match rest with
  | first :: second :: more => if first.isString then second :: more else rest
  | _ => rest

/-- The name and the overloads of `(defmacro name doc? [params] body…)`. -/
def macroDefinition (f : Form) : Except Fault (String × List OverloadShape) := do
  let items ← listItems "defmacro" f
  match items.drop 1 with
  | [] => throw (malformed "defmacro" .missingName f.location)
  | nameForm :: rest =>
    let name ← symbolName "defmacro" "name" nameForm
    return (name, ← overloads "defmacro" f (withoutDocumentation rest))

/-! ### Bindings -/

/-- Alternating names and values, from a binding vector at `l`. -/
def bindingPairs (form : String) (l : Location) : List Form → Except Fault (List Binding)
  | name :: value :: more =>
    match name.symbolName? with
    | none =>
      .error (malformed form (.notASymbol "binding name" name.kindName) (name.location.orElse l))
    | some n => do
      let rest ← bindingPairs form l more
      return (n, value) :: rest
  | _ => .ok []

/-- The bindings of the `let` or `loop` form `f`. -/
def bindings (form : String) (f : Form) : Except Fault (List Binding) := do
  let items ← listItems form f
  match items.drop 1 with
  | [] => throw (malformed form .missingBindings f.location)
  | vector :: _ =>
    let l := vector.location.orElse f.location
    match vector.vectorItems? with
    | none => throw (malformed form .bindingsNotAVector l)
    | some pairs =>
      if pairs.length % 2 != 0 then throw (malformed form .oddBindings l)
      else bindingPairs form vector.location pairs

/-- The forms after the bindings. -/
def bindingBody (f : Form) : List Form := f.items.drop 2

/-! ### Definitions -/

/-- The name and the value form of `(def name doc? value?)`. -/
def definition (f : Form) : Except Fault (String × Option Form) := do
  match ← listItems "def" f with
  | [_, name] => return (← symbolName "def" "name" name, none)
  | [_, name, value] => return (← symbolName "def" "name" name, some value)
  | [_, name, doc, value] =>
    let name ← symbolName "def" "name" name
    if doc.isString then return (name, some value)
    else throw (malformed "def" .tooManyParts f.location)
  | _ => throw (malformed "def" .definitionShape f.location)

/-! ### Failures -/

/-- Whether a form is a clause of `try`. -/
def isClause (f : Form) : Bool := f.isCallTo "catch" || f.isCallTo "finally"

/-- The clauses of a `try` form. -/
def clauses : List Form → Except Fault (List (String × List Form) × Option (List Form))
  | [] => .ok ([], none)
  | clause :: more => do
    if clause.isCallTo "catch" then
      match clause.items with
      | _ :: type :: binding :: body =>
        let _ ← symbolName "catch" "exception class" type
        let name ← symbolName "catch" "binding" binding
        let (handlers, cleanup) ← clauses more
        return ((name, body) :: handlers, cleanup)
      | _ => throw (malformed "catch" .incompleteCatch clause.location)
    else if clause.isCallTo "finally" then
      if more.isEmpty then return ([], some (clause.items.drop 1))
      else throw (malformed "try" .cleanupNotLast clause.location)
    else throw (malformed "try" .strayForm clause.location)

/-- The parts of `(try body… (catch Class name handler…)… (finally cleanup…)?)`. -/
def attempt (f : Form) : Except Fault AttemptShape := do
  let rest := (← listItems "try" f).drop 1
  let isPlain := fun g => !isClause g
  let (handlers, cleanup) ← clauses (rest.dropWhile isPlain)
  return { body := rest.takeWhile isPlain, handlers, cleanup }

end Shape

end TwinLisp
