import TwinLisp.Bytecode.Assembly
import TwinLisp.Bytecode.Compile
import TwinLisp.Bytecode.Instruction
import TwinLisp.Bytecode.Prototype
import TwinLisp.Collection.Key
import TwinLisp.Collection.Ordered
import TwinLisp.Console.Dialog
import TwinLisp.Console.Program
import TwinLisp.Console.Request
import TwinLisp.Console.Script
import TwinLisp.Decimal.Read
import TwinLisp.Decimal.Shortest
import TwinLisp.Decimal.Text
import TwinLisp.Engine.Backend
import TwinLisp.Engine.Basic
import TwinLisp.Engine.Evaluator
import TwinLisp.Engine.Prelude
import TwinLisp.Expansion.Basic
import TwinLisp.Expansion.Quotation
import TwinLisp.Expansion.Template
import TwinLisp.Fault.Basic
import TwinLisp.Fault.Cause
import TwinLisp.Fault.Malformation
import TwinLisp.Heap.Basic
import TwinLisp.Heap.Collection
import TwinLisp.Heap.Equality
import TwinLisp.Heap.Object
import TwinLisp.Host.Conversion
import TwinLisp.Host.Dictionary
import TwinLisp.Host.IntegerModule
import TwinLisp.Library.Arguments
import TwinLisp.Library.Collections
import TwinLisp.Library.Dispatch
import TwinLisp.Library.HigherOrder
import TwinLisp.Library.Native
import TwinLisp.Library.Numbers
import TwinLisp.Library.Predicates
import TwinLisp.Library.Reflection
import TwinLisp.Library.Sequences
import TwinLisp.Machine.Basic
import TwinLisp.Machine.Run
import TwinLisp.Machine.Step
import TwinLisp.Main
import TwinLisp.Number.Double
import TwinLisp.Number.Kernel
import TwinLisp.Number.Operator
import TwinLisp.Report.Comparison
import TwinLisp.Report.Excerpt
import TwinLisp.Session.Attribution
import TwinLisp.Session.Basic
import TwinLisp.Session.Data
import TwinLisp.Session.Printer
import TwinLisp.Session.Raised
import TwinLisp.Session.Scope
import TwinLisp.Session.SymbolTable
import TwinLisp.Special.Check
import TwinLisp.Special.Shape
import TwinLisp.Syntax.Form
import TwinLisp.Syntax.Literal
import TwinLisp.Syntax.Location
import TwinLisp.Syntax.Placeholder
import TwinLisp.Syntax.ReadError
import TwinLisp.Syntax.Reader
import TwinLisp.Syntax.Token
import TwinLisp.Syntax.Token.Scan
import TwinLisp.Text.Character
import TwinLisp.Text.Digits
import TwinLisp.Text.Lines
import TwinLisp.Text.Quoted
import TwinLisp.TreeWalk.Basic
import TwinLisp.TreeWalk.Call
import TwinLisp.TreeWalk.Eval
import TwinLisp.TreeWalk.Special
import TwinLisp.Value.Arity
import TwinLisp.Value.Basic
import TwinLisp.Value.Native
import TwinLisp.Proofs.Collection.Ordered
import TwinLisp.Proofs.Heap.Reachability
import TwinLisp.Proofs.Heap.Marking
import TwinLisp.Proofs.Heap.Exactness
import TwinLisp.Proofs.Collection.Key
import TwinLisp.Proofs.Collection.Pairwise
import TwinLisp.Proofs.Correspondence.Agreement
import TwinLisp.Proofs.Correspondence.Arguments
import TwinLisp.Proofs.Correspondence.Code
import TwinLisp.Proofs.Correspondence.Collections
import TwinLisp.Proofs.Correspondence.Expansion
import TwinLisp.Proofs.Correspondence.HigherOrder
import TwinLisp.Proofs.Correspondence.Native
import TwinLisp.Proofs.Special.Shape
import TwinLisp.Proofs.Transparency.Assembly
import TwinLisp.Proofs.Transparency.Compile
import TwinLisp.Proofs.Transparency.Frames
import TwinLisp.Proofs.Transparency.Run
import TwinLisp.Proofs.Transparency.Transcript
import TwinLisp.Proofs.Conduct.Change
import TwinLisp.Proofs.Conduct.Obeys
import TwinLisp.Proofs.Conduct.Primitives
import TwinLisp.Proofs.Conduct.Expansion
import TwinLisp.Proofs.Conduct.Library
import TwinLisp.Proofs.Conduct.Native
import TwinLisp.Proofs.Special.Accepted
import TwinLisp.Proofs.Conduct.Walker
import TwinLisp.Proofs.Bytecode.Level
import TwinLisp.Proofs.Bytecode.Assembling
import TwinLisp.Proofs.Bytecode.Compile
import TwinLisp.Proofs.Conduct.Evaluation
import TwinLisp.Proofs.Conduct.Host
import TwinLisp.Proofs.Engine.Blame
import TwinLisp.Proofs.Engine.CoreOperators
import TwinLisp.Proofs.Machine.Safety
import TwinLisp.Proofs.Special.Safety
import TwinLisp.Proofs.Conduct.Keeping
import TwinLisp.Proofs.Fuel.Order
import TwinLisp.Proofs.Fuel.Library
import TwinLisp.Proofs.Fuel.Evaluation
import TwinLisp.Proofs.Engine.Immutability
import TwinLisp.Proofs.Transparency.Vigilance
import TwinLisp.Proofs.Collection.Listing
import TwinLisp.Proofs.Syntax.Data
import TwinLisp.Proofs.Expansion.Shown
import TwinLisp.Proofs.Expansion.RoundTrip
import TwinLisp.Proofs.Expansion.Expanded
import TwinLisp.Proofs.Expansion.Evaluated
import TwinLisp.Proofs.Expansion.Steady
import TwinLisp.Proofs.Expansion.Fixpoint
import TwinLisp.Proofs.Engine.Requests
import TwinLisp.Proofs.Engine.Splicing
import TwinLisp.Proofs.Heap.Lifetime
import TwinLisp.Proofs.Collection.Refinement
import TwinLisp.Proofs.Heap.Keys
import TwinLisp.Proofs.Number.Blame
import TwinLisp.Proofs.Number.Floats
import TwinLisp.Proofs.Number.Division
import TwinLisp.Proofs.Syntax.Integers
import TwinLisp.Proofs.Syntax.Size
import TwinLisp.Proofs.Heap.Equality
import TwinLisp.Proofs.Heap.Construction
import TwinLisp.Proofs.Machine.Cleanup
import TwinLisp.Proofs.Machine.Lending
import TwinLisp.Proofs.Template.Builds
import TwinLisp.Proofs.Syntax.Positions
import TwinLisp.Proofs.Report.Carets
import TwinLisp.Proofs.Expansion.Heads
import TwinLisp.Proofs.Expansion.Names
import TwinLisp.Proofs.Syntax.Continuing
import TwinLisp.Proofs.Syntax.Completing
import TwinLisp.Proofs.Console.Waiting
import TwinLisp.Proofs.Syntax.Readable
import TwinLisp.Proofs.Syntax.Literals
import TwinLisp.Proofs.Expansion.Printed
import TwinLisp.Proofs.Number.Range
import TwinLisp.Proofs.Host.RoundTrip
