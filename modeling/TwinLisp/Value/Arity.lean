/-!
# Numbers of arguments

A function has one or more overloads, each with a number of fixed parameters and perhaps a further
parameter for all the rest. Which overload a call runs depends on the number of arguments alone: one
with exactly so many parameters wins over one that takes more.

## Main definitions

* `Accepts` is what a function says about the numbers of arguments it takes.
* `Overload` is the shape of one parameter list, and `Overload.select?` picks among several.
-/

namespace TwinLisp

/-- The numbers of arguments that a function takes. -/
inductive Accepts where
  | exactly (n : Nat)
  | atLeast (n : Nat)
  | between (least most : Nat)
  deriving DecidableEq

/-- The numbers of arguments, in words. -/
def Accepts.text : Accepts → String
  | .exactly n => toString n
  | .atLeast n => s!"at least {n}"
  | .between least most => s!"{least} to {most}"

/-- The shape of one parameter list. -/
structure Overload where
  /-- The number of fixed parameters. -/
  fixed : Nat
  /-- Whether further arguments are taken as a list. -/
  hasRest : Bool
  deriving DecidableEq

namespace Overload

/-- Whether the overload takes `argc` arguments. -/
def takes (o : Overload) (argc : Nat) : Bool :=
  if o.hasRest then o.fixed ≤ argc else o.fixed == argc

/-- The position of the overload that a call with `argc` arguments runs. -/
def select? (overloads : List Overload) (argc : Nat) : Option Nat :=
  (overloads.findIdx? fun o => !o.hasRest && o.fixed == argc).or
    (overloads.findIdx? fun o => o.takes argc)

/-- What some overloads accept together. -/
def accepts : List Overload → Accepts
  | [] => .exactly 0
  | o :: os =>
    let least := os.foldl (fun n p => min n p.fixed) o.fixed
    let most := os.foldl (fun n p => max n p.fixed) o.fixed
    if (o :: os).any (·.hasRest) then .atLeast least
    else if least == most then .exactly least
    else .between least most

end Overload

end TwinLisp
