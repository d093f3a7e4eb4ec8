/-!
# Backends

There are two ways to run a program: to walk over its forms, or to compile it and run the code on a
stack machine. Both serve the same language.
-/

namespace TwinLisp

/-- A way to run programs. -/
inductive Backend where
  /-- Walk over the forms. -/
  | treeWalk
  /-- Compile, and run on the stack machine. -/
  | machine
  deriving DecidableEq, Inhabited

namespace Backend

/-- The name of the backend. -/
def name : Backend → String
  | .treeWalk => "tree-walk"
  | .machine => "vm"

/-- The names under which a backend can be chosen. -/
def names : List (String × Backend) :=
  [("tree", .treeWalk), ("tree-walk", .treeWalk), ("treewalk", .treeWalk), ("vm", .machine),
    ("bytecode", .machine)]

/-- The backend with the given name. -/
def ofName? (name : String) : Option Backend := names.lookup name

/-- What is said about a name that no backend has. -/
def unknownName (name : String) : String := s!"unknown backend '{name}'"

theorem ofName?_name (b : Backend) : ofName? b.name = some b := by
  cases b <;> decide

end Backend

end TwinLisp
