import TwinLisp.Bytecode.Instruction
import TwinLisp.Syntax.Location
import TwinLisp.Value.Arity

/-!
# Compiled functions

A prototype is what a `fn` form is compiled to: for each of its parameter lists the code with its
tables, and the list of values that a closure captures when it is made. The prototypes of inner
functions are kept in a table of the code that makes closures of them.

## Main definitions

* `ArityCode` is the code for one parameter list.
* `Prototype.selectArity?` picks the code for a number of arguments.
* `Prototype.values` lists every constant of a prototype and of the ones inside it.
* `ArityCode.listing` shows the code, one instruction a line.
-/

namespace TwinLisp

/-- The code for one parameter list; `P` stands for the prototypes of inner functions. -/
structure ArityCode (P : Type) where
  /-- The number of fixed parameters. -/
  params : Nat
  /-- Whether further arguments are passed as a list. -/
  hasRest : Bool
  /-- The instructions. -/
  code : Array Instruction
  /-- The source location of each instruction. -/
  locations : Array Location
  /-- The constants. -/
  constants : Array Value
  /-- The call sites: the location of the call, then of each argument. -/
  sites : Array (List Location)
  /-- The prototypes of inner functions. -/
  prototypes : List P

/-- A compiled function. -/
inductive Prototype where
  | mk (name : Option Symbol) (label : Option String) (captures : List Capture)
      (arities : List (ArityCode Prototype))

namespace Prototype

/-- The function's name, if it has one. -/
def name : Prototype → Option Symbol
  | .mk n _ _ _ => n

/-- The text of the function's name. -/
def label : Prototype → Option String
  | .mk _ l _ _ => l

/-- The values that a closure captures. -/
def captures : Prototype → List Capture
  | .mk _ _ c _ => c

/-- The code for each parameter list. -/
def arities : Prototype → List (ArityCode Prototype)
  | .mk _ _ _ a => a

/-- The shapes of the parameter lists. -/
def overloads (p : Prototype) : List Overload := p.arities.map fun a => ⟨a.params, a.hasRest⟩

/-- The code for `argc` arguments. -/
def selectArity? (p : Prototype) (argc : Nat) : Option (ArityCode Prototype) :=
  (Overload.select? p.overloads argc).bind fun i => p.arities[i]?

mutual

/-- Every constant of a prototype and of the prototypes inside it. -/
def values : Prototype → List Value
  | .mk _ _ _ arities => arityValues arities

/-- Every constant of some parameter lists' code. -/
def arityValues : List (ArityCode Prototype) → List Value
  | [] => []
  | ⟨_, _, _, _, constants, _, prototypes⟩ :: rest =>
    constants.toList ++ valuesOf prototypes ++ arityValues rest

/-- Every constant of some prototypes. -/
def valuesOf : List Prototype → List Value
  | [] => []
  | p :: ps => values p ++ valuesOf ps

end

end Prototype

namespace ArityCode

/-- `text` with blanks before it, up to `width` characters. -/
def padLeft (width : Nat) (pad : Char) (text : String) : String :=
  String.ofList (List.replicate (width - text.length) pad) ++ text

/-- The code as text: offset, source location and instruction of each line. -/
def listing {P : Type} (c : ArityCode P) : List String :=
  c.code.toList.zipIdx.map fun (op, offset) =>
    let location := (c.locations[offset]?).getD .unknown
    padLeft 4 '0' (toString offset) ++ " " ++ padLeft 7 ' ' location.text ++ " " ++ op.text

end ArityCode

end TwinLisp
