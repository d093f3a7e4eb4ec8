/-!
# Malformed special forms

Everything that can be wrong with the shape of a special form. A malformation is reported together
with the name of the special form it was found in.
-/

namespace TwinLisp

/-- What is wrong with the shape of a special form. -/
inductive Malformation where
  /-- The form is not a list. -/
  | notAList
  /-- Something that plays the given role is not a symbol but of another kind. -/
  | notASymbol (role found : String)
  /-- The parameters are not a vector. -/
  | parametersNotAVector
  /-- The mark for a rest parameter is not followed by exactly one parameter. -/
  | restNotLast
  /-- A function has no parameters. -/
  | missingParameters
  /-- An overload is not a list. -/
  | notAnOverload
  /-- An overload is an empty list. -/
  | emptyOverload
  /-- More than one overload has a rest parameter. -/
  | severalRests
  /-- Two overloads have the same number of fixed parameters. -/
  | sameArity
  /-- A macro definition has no name. -/
  | missingName
  /-- There is no binding vector. -/
  | missingBindings
  /-- The bindings are not a vector. -/
  | bindingsNotAVector
  /-- A binding vector ends in a name without a value. -/
  | oddBindings
  /-- Something follows a cleanup clause. -/
  | cleanupNotLast
  /-- A catch clause lacks its class or its binding. -/
  | incompleteCatch
  /-- An ordinary form follows a catch clause. -/
  | strayForm
  /-- A definition has too few or far too many parts. -/
  | definitionShape
  /-- A definition has a part too many. -/
  | tooManyParts
  /-- Forms are nested more deeply than the limit allows. -/
  | nestedTooDeeply (limit : Nat)
  /-- The form takes one argument. -/
  | takesOne (given : Nat)
  /-- The form takes two or three arguments. -/
  | takesTwoOrThree (given : Nat)
  /-- A template has survived expansion. -/
  | notExpanded
  /-- A definition would rebind a core operator. -/
  | coreOperator (name : String)
  /-- There is nothing to recur to. -/
  | recurWithoutTarget
  /-- The form would have to return to its surroundings before it can recur. -/
  | recurNotLast
  /-- The number of new values differs from that of the target's bindings. -/
  | recurCount (expected given : Nat) (hasRest : Bool)
  /-- A clause of `try` stands outside of it. -/
  | clauseOutsideTry
  /-- A template or an unquoted part of one is not exactly one form. -/
  | takesOneForm
  /-- A splice stands where there is no sequence to splice into. -/
  | spliceOutsideList
  /-- The form has no meaning where it stands. -/
  | misplaced
  deriving DecidableEq

/-- The wording of a malformation. -/
def Malformation.message : Malformation → String
  | .notAList => "expected a list"
  | .notASymbol role found => s!"{role} must be a symbol, got {found}"
  | .parametersNotAVector => "parameters must be a vector"
  | .restNotLast => "'&' must be followed by exactly one parameter"
  | .missingParameters => "missing parameter vector"
  | .notAnOverload => "expected a parameter vector or arity clauses"
  | .emptyOverload => "empty arity clause"
  | .severalRests => "can't have more than one variadic overload"
  | .sameArity => "can't have two overloads with the same arity"
  | .missingName => "missing name"
  | .missingBindings => "missing binding vector"
  | .bindingsNotAVector => "bindings must be a vector"
  | .oddBindings => "binding vector requires an even number of forms"
  | .cleanupNotLast => "finally clause must be last"
  | .incompleteCatch => "expected (catch Class binding body*)"
  | .strayForm => "only catch or finally clauses may follow catch"
  | .definitionShape => "expected (def name value?)"
  | .tooManyParts => "too many arguments"
  | .nestedTooDeeply limit => s!"nested deeper than {limit}"
  | .takesOne given => s!"expected 1 argument, got {given}"
  | .takesTwoOrThree given => s!"expected 2 or 3 arguments, got {given}"
  | .notExpanded => "not expanded"
  | .coreOperator name => s!"cannot redefine core operator {name}"
  | .recurWithoutTarget => "recur outside of loop or fn"
  | .recurNotLast => "can only recur from tail position"
  | .recurCount expected given true =>
    s!"expected {expected} arguments (rest parameter passed as one), got {given}"
  | .recurCount expected given false => s!"expected {expected} arguments, got {given}"
  | .clauseOutsideTry => "must appear inside try"
  | .takesOneForm => "expected exactly one form"
  | .spliceOutsideList => "splice not in list"
  | .misplaced => "not valid in this position"

end TwinLisp
