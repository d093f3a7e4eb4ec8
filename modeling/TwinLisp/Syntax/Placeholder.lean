import TwinLisp.Syntax.Form
import TwinLisp.Text.Digits

/-!
# Anonymous functions

`#(…)` is a function whose parameters are named by their use. `%` and `%1` are the first argument,
`%2` the second and so on, and `%&` is the list of all further ones. The literal is read as an
ordinary `fn*` form: it takes as many parameters as the greatest placeholder in its body asks for,
and every placeholder becomes the name of its parameter.

## Main definitions

* `Placeholder.ofName?` recognises a placeholder.
* `Placeholder.rename` replaces the placeholders of a form.
* `anonymousFunction` builds the function.
-/

namespace TwinLisp

open TwinLisp.Text

/-- A name that stands for an argument of an anonymous function. -/
inductive Placeholder where
  /-- The argument with this number, counted from one. -/
  | argument (n : Nat)
  /-- All arguments beyond the numbered ones. -/
  | rest
  deriving DecidableEq

namespace Placeholder

/-- The number written by `cs`, which may have a plus sign and must fit sixty-four bits. -/
def index? (cs : List Char) : Option Nat :=
  let digits :=
    match cs with
    | '+' :: more => more
    | _ => cs
  (readNat? 10 digits).filter (· < Nat.pow 2 64)

/-- The placeholder that a name is, if it is one. -/
def ofName? (name : String) : Option Placeholder :=
  match name.toList with
  | ['%'] => some (.argument 1)
  | ['%', '&'] => some .rest
  | '%' :: cs => (index? cs).map .argument
  | _ => none

/-- The name of the parameter that a placeholder refers to. -/
def parameter : Placeholder → String
  | .argument n => s!"p{n}__auto__"
  | .rest => "rest__auto__"

mutual

/-- The greatest numbered placeholder in a form; zero if there is none. -/
def greatest : Form → Nat
  | .leaf (.symbol name) _ =>
    match ofName? name with
    | some (.argument n) => n
    | _ => 0
  | .leaf _ _ => 0
  | .group _ items _ => greatestOf items

/-- The greatest numbered placeholder in some forms. -/
def greatestOf : List Form → Nat
  | [] => 0
  | f :: fs => max (greatest f) (greatestOf fs)

end

mutual

/-- Whether a form uses the list of further arguments. -/
def usesRest : Form → Bool
  | .leaf (.symbol name) _ => ofName? name == some .rest
  | .leaf _ _ => false
  | .group _ items _ => anyUsesRest items

/-- Whether one of some forms uses the list of further arguments. -/
def anyUsesRest : List Form → Bool
  | [] => false
  | f :: fs => usesRest f || anyUsesRest fs

end

mutual

/-- The form with every placeholder replaced by its parameter. -/
def rename : Form → Form
  | .leaf (.symbol name) l =>
    match ofName? name with
    | some p => .symbol p.parameter l
    | none => .symbol name l
  | .leaf d l => .leaf d l
  | .group b items l => .group b (renameAll items) l

/-- Some forms with every placeholder replaced. -/
def renameAll : List Form → List Form
  | [] => []
  | f :: fs => rename f :: renameAll fs

end

/-- The parameter names for `count` numbered placeholders and, if wanted, the rest. -/
def parameters (count : Nat) (rest : Bool) : List String :=
  (List.range count).map (fun i => (argument (i + 1)).parameter) ++
    if rest then ["&", parameter .rest] else []

end Placeholder

/-- The function that the anonymous function literal with these body items stands for. -/
def anonymousFunction (body : List Form) (location : Location) : Form :=
  let names := Placeholder.parameters (Placeholder.greatestOf body) (Placeholder.anyUsesRest body)
  .list
    [.symbol "fn*" location,
      .vector (names.map fun name => .symbol name location) location,
      .list (Placeholder.renameAll body) location]
    location

end TwinLisp
