import TwinLisp.Bytecode.Prototype
import TwinLisp.Collection.Ordered
import TwinLisp.Session.Scope
import TwinLisp.Syntax.Form
import TwinLisp.Value.Native

/-!
# Objects

What lives on the heap. Apart from atoms, whose content changes, objects are never modified.

A function is native, a closure that is interpreted, or a prototype together with the values it
captured. A session makes either closures or compiled functions, never both, so that it always knows
how to run the functions it made.

## Main definitions

* `Function` and its three bodies.
* `Object`, its kind, and the values, scopes and handles that it refers to (`Object.references`).
-/

namespace TwinLisp

/-- One parameter list of a closure, with the forms to evaluate. -/
structure ClosureOverload where
  /-- The names of the fixed parameters. -/
  params : List Symbol
  /-- The name of the parameter for further arguments. -/
  rest : Option Symbol
  /-- The forms to evaluate. -/
  body : List Form

/-- The shape of the parameter list. -/
def ClosureOverload.shape (o : ClosureOverload) : Overload := ⟨o.params.length, o.rest.isSome⟩

/-- An interpreted function. -/
structure Closure where
  /-- The name by which the function can refer to itself. -/
  name : Option Symbol
  /-- The parameter lists with their bodies. -/
  overloads : List ClosureOverload
  /-- The scope in which the function was made. -/
  scope : ScopeId
  /-- Where the function was made. -/
  location : Location

namespace Closure

/-- The shapes of the parameter lists. -/
def shapes (c : Closure) : List Overload := c.overloads.map ClosureOverload.shape

/-- The parameter list for `argc` arguments. -/
def select? (c : Closure) (argc : Nat) : Option ClosureOverload :=
  (Overload.select? c.shapes argc).bind fun i => c.overloads[i]?

end Closure

/-- How a function is run. -/
inductive FunctionBody where
  /-- By the system. -/
  | native (n : Native)
  /-- By walking over its forms. -/
  | interpreted (c : Closure)
  /-- By the stack machine. -/
  | compiled (p : Prototype) (captured : Array Value)

/-- A function. -/
structure Function where
  /-- Its name, for messages and printing. -/
  name : Option Symbol
  /-- Whether it is applied to code before evaluation. -/
  isMacro : Bool
  /-- How it is run. -/
  body : FunctionBody

/-- Something on the heap. -/
inductive Object where
  | str (s : String)
  /-- A list. One that was converted from code knows where that code stands. -/
  | list (items : List Value) (location : Location)
  /-- A vector, with a location as for lists. -/
  | vector (items : List Value) (location : Location)
  | map (m : OrderedMap)
  | set (s : OrderedSet)
  | function (f : Function)
  /-- A cell with the value it holds now. -/
  | atom (v : Value)
  /-- Something that belongs to the host, known by the name of its type. -/
  | host (typeName : String)

/-- A node of the graph that collection follows. -/
inductive Node where
  | object (a : Address)
  | scope (i : ScopeId)
  /-- An object that a form mentions by handle. -/
  | handle (h : Nat)
  deriving DecidableEq

namespace Node

/-- The object that a value refers to, as a node. -/
def ofValue : Value → List Node
  | .ref _ a => [.object a]
  | _ => []

/-- The objects that some values refer to. -/
def ofValues (vs : List Value) : List Node := vs.flatMap ofValue

end Node

/-- What a function refers to. -/
def Function.references (f : Function) : List Node :=
  match f.body with
  | .native _ => []
  | .interpreted c => .scope c.scope :: c.overloads.flatMap fun o => (Form.handlesOf o.body).map .handle
  | .compiled p captured => Node.ofValues p.values ++ Node.ofValues captured.toList

namespace Object

/-- The kind of an object. -/
def kind : Object → Kind
  | .str _ => .str
  | .list _ _ => .list
  | .vector _ _ => .vector
  | .map _ => .map
  | .set _ => .set
  | .function _ => .function
  | .atom _ => .atom
  | .host _ => .host

/-- What an object refers to. -/
def references : Object → List Node
  | .str _ => []
  | .list items _ => Node.ofValues items
  | .vector items _ => Node.ofValues items
  | .map m => m.toList.flatMap fun e => Node.ofValue e.1 ++ Node.ofValue e.2
  | .set s => Node.ofValues s.toList
  | .function f => f.references
  | .atom v => Node.ofValue v
  | .host _ => []

end Object

/-- What a scope refers to. -/
def Scope.references (s : Scope) : List Node :=
  Node.ofValues s.bindings.values ++ s.parent.toList.map .scope

end TwinLisp
