import TwinLisp.Special.Shape
import TwinLisp.Session.Basic

/-!
# Templates

A template is code with holes. It stands for code that builds the template's value with the holes
filled in: `` `(a ~b ~@c) `` becomes `(seq (concat (list (quote a)) (list b) c))`. Vectors,
maps and sets are built by applying their constructor to the same concatenation.

A symbol that ends in `#` stands for a fresh name, the same one throughout the template. A template
inside a template is replaced twice.

Every template that is passed disappears, so a form needs no more passes than it holds templates.

## Main definitions

* `Form.templates` counts the templates in a form.
* `Template.builder` is the code that a template stands for.
-/

namespace TwinLisp

mutual

/-- The number of templates in a form. -/
def Form.templates : Form → Nat
  | .leaf _ _ => 0
  | .group b items l =>
    (if (Form.group b items l).isCallTo "syntax-quote" then 1 else 0) + Form.templatesIn items

/-- The number of templates in some forms. -/
def Form.templatesIn : List Form → Nat
  | [] => 0
  | f :: fs => Form.templates f + Form.templatesIn fs

end

namespace Template

/-- The fresh names of a template, by the names they replace. -/
abbrev FreshNames := List (String × String)

/-- Computations that share the fresh names of one template. -/
abbrev Naming := StateT FreshNames Eval

/-- The part of a symbol's name before a final `#`, if there is one. -/
def freshBase? (name : String) : Option String :=
  match name.toList.reverse with
  | '#' :: c :: cs => some (String.ofList (c :: cs).reverse)
  | _ => none

/-- The fresh name that replaces `base` in this template. -/
def freshName (base : String) : Naming String := do
  match (← get).lookup base with
  | some name => return name
  | none =>
    let name := (← Eval.generateName (base ++ "__")) ++ "__auto__"
    modify ((base, name) :: ·)
    return name

/-- Code for a symbol. -/
def quoteSymbol (name : String) (l : Location) : Naming Form := do
  let name ←
    match freshBase? name with
    | some base => freshName base
    | none => pure name
  return .call "quote" [.symbol name l] l

/-- Stop because a template is malformed. -/
def reject {α : Type} (form : String) (what : Malformation) (l : Location) : Naming α :=
  StateT.lift (Eval.fail (malformed form what l))

/-- Code for a group with constructor `name`, whose items `parts` build. -/
def applied (name : String) (parts : List Form) (l : Location) : Form :=
  .call "apply" [.symbol name l, .call "concat" parts l] l

/-- Code for a group whose items `parts` build. -/
def build (b : Bracket) (parts : List Form) (l : Location) : Form :=
  match b with
  | .list => .call "seq" [.call "concat" parts l] l
  | .vector => applied "vector" parts l
  | .map => applied "hash-map" parts l
  | .set => applied "hash-set" parts l

mutual

/-- Code that builds a form. A template in it is replaced once here and then again by `again`. -/
def builderWith (again : Form → Naming Form) : Form → Naming Form
  | .leaf (.symbol name) l => quoteSymbol name l
  | .leaf d l => return .leaf d l
  | .group .list [] l => return .call "list" [] l
  | .group .list [head, inner] l =>
    match head.symbolName? with
    | some "unquote" => return inner
    | some "unquote-splicing" => reject "unquote-splicing" .spliceOutsideList l
    | some "syntax-quote" => do again (← builderWith again inner)
    | _ => do return build .list (← partsWith again l [head, inner]) l
  | .group .list (head :: rest) l =>
    match head.symbolName? with
    | some "unquote" => reject "unquote" .takesOneForm l
    | some "unquote-splicing" => reject "unquote-splicing" .spliceOutsideList l
    | _ => do return build .list (← partsWith again l (head :: rest)) l
  | .group b items l => do return build b (← partsWith again l items) l

/-- Code for the sequences that the items of a group at `l` contribute. -/
def partsWith (again : Form → Naming Form) (l : Location) : List Form → Naming (List Form)
  | [] => return []
  | item :: rest => do
    let first ←
      match item.headSymbol?, item.items with
      | some "unquote-splicing", [_, inner] => pure inner
      | some "unquote", [_, inner] => pure (.call "list" [inner] (item.location.orElse l))
      | _, _ => do pure (.call "list" [← builderWith again item] (item.location.orElse l))
    let others ← partsWith again l rest
    return first :: others

end

/-- Code that builds a form which holds at most so many templates. -/
def builderWithin : Nat → Form → Naming Form
  | 0, f => builderWith pure f
  | n + 1, f => builderWith (builderWithin n) f

/-- Code that builds the value of the template `f`. -/
def builder (f : Form) : Eval Form := do
  let (code, _) ← (builderWithin f.templates f).run []
  return code

end Template

end TwinLisp
