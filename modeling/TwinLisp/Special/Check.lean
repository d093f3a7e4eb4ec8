import TwinLisp.Number.Operator
import TwinLisp.Special.Shape

/-!
# Checking programs

Every expanded form is checked before it is evaluated. What passes has no malformed special form, no
`recur` that would not reach the loop or function around it with the right number of values, and is
not nested beyond the limit.

A `recur` is allowed where nothing is left to do in the loop or function around it, and never inside
a `try`.

## Main definitions

* `RecurTarget` is what a `recur` reaches.
* `checkForm` checks a form at a place, and `check` a whole program.
-/

namespace TwinLisp

/-- What a `recur` reaches. -/
structure RecurTarget where
  /-- The number of values that it takes. -/
  slots : Nat
  /-- Whether the last of them is the list of further arguments. -/
  hasRest : Bool

/-- Check the forms of a body; the last one returns to the surroundings of the body. -/
def checkBody (checkOne : Bool → Form → Except Fault Unit) (isLast : Bool) :
    List Form → Except Fault Unit
  | [] => .ok ()
  | [f] => checkOne isLast f
  | f :: fs => do
    checkOne false f
    checkBody checkOne isLast fs

/-- Check a `recur` with so many values. -/
def checkRecur (cursor : Location) (target : Option RecurTarget) (isLast : Bool) (argc : Nat) :
    Except Fault Unit :=
  match target with
  | none => .error (malformed "recur" .recurWithoutTarget cursor)
  | some t =>
    if !isLast then .error (malformed "recur" .recurNotLast cursor)
    else if argc != t.slots then
      .error (malformed "recur" (.recurCount t.slots argc t.hasRest) cursor)
    else .ok ()

/-- Check the special form `f` at `cursor`, using `checkOne` for its parts. -/
def checkSpecial (checkOne : Location → Option RecurTarget → Bool → Form → Except Fault Unit)
    (cursor : Location) (target : Option RecurTarget) (isLast : Bool) (kind : SpecialForm)
    (f : Form) : Except Fault Unit := do
  let args := f.items.drop 1
  let name := f.headSymbol?.getD ""
  let parts := fun t (forms : List Form) => forms.forM (checkOne cursor t false)
  let body := fun l t isLast => checkBody (checkOne l t) isLast
  let functions := fun (overloads : List OverloadShape) =>
    overloads.forM fun o =>
      body (o.location.orElse cursor) (some ⟨o.names.length, o.rest.isSome⟩) true o.body
  match kind with
  | .quote =>
    if args.length != 1 then throw (malformed "quote" (.takesOne args.length) cursor)
  | .template => throw (malformed "syntax-quote" .notExpanded cursor)
  | .conditional =>
    match args with
    | test :: branches =>
      if branches.length < 1 || 2 < branches.length then
        throw (malformed "if" (.takesTwoOrThree args.length) cursor)
      checkOne cursor target false test
      branches.forM (checkOne cursor target isLast)
    | [] => throw (malformed "if" (.takesTwoOrThree args.length) cursor)
  | .sequence => body cursor target isLast args
  | .letBinding =>
    let bindings ← Shape.bindings "let" f
    bindings.forM fun b => checkOne cursor target false b.2
    body cursor target isLast (Shape.bindingBody f)
  | .loop =>
    let bindings ← Shape.bindings "loop" f
    bindings.forM fun b => checkOne cursor target false b.2
    body cursor (some ⟨bindings.length, false⟩) true (Shape.bindingBody f)
  | .function => functions (← Shape.function f).overloads
  | .macroDefinition => functions (← Shape.macroDefinition f).2
  | .definition =>
    let (defined, value) ← Shape.definition f
    if (CoreOp.ofName? defined).isSome then
      throw (malformed "def" (.coreOperator defined) cursor)
    value.toList.forM (checkOne cursor target false)
  | .recur =>
    checkRecur cursor target isLast args.length
    args.forM (checkOne cursor target false)
  | .raise =>
    match args with
    | [value] => checkOne cursor target false value
    | _ => throw (malformed "throw" (.takesOne args.length) cursor)
  | .attempt =>
    let shape ← Shape.attempt f
    parts none shape.body
    shape.handlers.forM fun h => parts none h.2
    parts none (shape.cleanup.getD [])
  | .handler => throw (malformed name .clauseOutsideTry cursor)
  | .cleanup => throw (malformed name .clauseOutsideTry cursor)

/-- Check a form that may have `depth` levels. The cursor is the location of the innermost form
around it that has one, and `isLast` says whether nothing is left to do after it in the loop or
function around it. -/
def checkForm (limit : Nat) : Nat → Location → Option RecurTarget → Bool → Form → Except Fault Unit
  | 0, cursor, _, _, f =>
    .error (malformed "form" (.nestedTooDeeply limit) (f.location.orElse cursor))
  | depth + 1, cursor, target, isLast, f =>
    let cursor := f.location.orElse cursor
    match f.special? with
    | some kind => checkSpecial (checkForm limit depth) cursor target isLast kind f
    | none => f.items.forM (checkForm limit depth cursor target false)

/-- Check an expanded program, whose forms may be nested `limit` levels deep. -/
def check (limit : Nat) (f : Form) : Except Fault Unit :=
  checkForm limit limit .unknown none false f

end TwinLisp
