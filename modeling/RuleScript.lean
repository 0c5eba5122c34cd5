import RuleScript.Arity
import RuleScript.Data.Conversion
import RuleScript.Data.Datum
import RuleScript.Data.Json.Read
import RuleScript.Data.Json.Write
import RuleScript.Data.Yaml.Binary
import RuleScript.Data.Yaml.Cursor
import RuleScript.Data.Yaml.Event
import RuleScript.Data.Yaml.Fault
import RuleScript.Data.Yaml.Graph
import RuleScript.Data.Yaml.Item
import RuleScript.Data.Yaml.Property
import RuleScript.Data.Yaml.Read
import RuleScript.Data.Yaml.Scalar
import RuleScript.Data.Yaml.Schema
import RuleScript.Data.Yaml.SetOrder
import RuleScript.Data.Yaml.Style
import RuleScript.Data.Yaml.Timestamp
import RuleScript.Data.Yaml.Token
import RuleScript.Data.Yaml.TokenStream
import RuleScript.Data.Yaml.Write
import RuleScript.Display
import RuleScript.Engine
import RuleScript.Fault
import RuleScript.Heap
import RuleScript.Host.Method
import RuleScript.Host.Sample
import RuleScript.Library.Argument
import RuleScript.Library.Array
import RuleScript.Library.Core
import RuleScript.Library.Data
import RuleScript.Library.Dict
import RuleScript.Library.Dispatch
import RuleScript.Library.Inspection
import RuleScript.Library.Math
import RuleScript.Library.Operation
import RuleScript.Library.Sorting
import RuleScript.Library.Sorting.Merge
import RuleScript.Library.Sorting.Run
import RuleScript.Library.String
import RuleScript.Machine
import RuleScript.Main
import RuleScript.Number.Arithmetic
import RuleScript.Number.Conversion
import RuleScript.Number.Decimal
import RuleScript.Number.Exact
import RuleScript.Number.Layout
import RuleScript.Number.Numeral
import RuleScript.Proofs.Blocks.Control
import RuleScript.Proofs.Blocks.Inlining
import RuleScript.Proofs.Blocks.Meaning
import RuleScript.Proofs.Blocks.Sequence
import RuleScript.Proofs.Calls.Coupling
import RuleScript.Proofs.Calls.Depth
import RuleScript.Proofs.Calls.Disguise
import RuleScript.Proofs.Calls.Evaluation
import RuleScript.Proofs.Calls.Levels
import RuleScript.Proofs.Calls.Local
import RuleScript.Proofs.Calls.Marshalling
import RuleScript.Proofs.Calls.Scoping
import RuleScript.Proofs.Calls.Trace
import RuleScript.Proofs.Composition
import RuleScript.Proofs.Computation
import RuleScript.Proofs.Effects.Prints
import RuleScript.Proofs.Faults.Context
import RuleScript.Proofs.Faults.Position
import RuleScript.Proofs.Faults.Taxonomy
import RuleScript.Proofs.Heap.Assignment
import RuleScript.Proofs.Heap.Encapsulation
import RuleScript.Proofs.Heap.Growth
import RuleScript.Proofs.Heap.Names
import RuleScript.Proofs.Heap.Visibility
import RuleScript.Proofs.Heap.WellFormed
import RuleScript.Proofs.Hosts.Binding
import RuleScript.Proofs.Json.Numeral
import RuleScript.Proofs.Json.RoundTrip
import RuleScript.Proofs.Json.Text
import RuleScript.Proofs.Library.Cutting
import RuleScript.Proofs.Library.Failure
import RuleScript.Proofs.Library.Flattening
import RuleScript.Proofs.Library.Indexing
import RuleScript.Proofs.Library.Iteration
import RuleScript.Proofs.Library.Mutation
import RuleScript.Proofs.Library.Reflection
import RuleScript.Proofs.Library.Rounds
import RuleScript.Proofs.Library.Slicing
import RuleScript.Proofs.Library.Sort
import RuleScript.Proofs.Library.Splicing
import RuleScript.Proofs.Likeness.Basic
import RuleScript.Proofs.Likeness.Discretion
import RuleScript.Proofs.Likeness.Disguise
import RuleScript.Proofs.Likeness.Evaluation
import RuleScript.Proofs.Likeness.Isolation
import RuleScript.Proofs.Likeness.Layout
import RuleScript.Proofs.Likeness.Library
import RuleScript.Proofs.Likeness.Mirroring
import RuleScript.Proofs.Likeness.Sorting
import RuleScript.Proofs.Number.Double
import RuleScript.Proofs.Number.Grammar
import RuleScript.Proofs.Number.Integer
import RuleScript.Proofs.Number.Nearest
import RuleScript.Proofs.Number.Order
import RuleScript.Proofs.Number.Rounding
import RuleScript.Proofs.Number.Shortest
import RuleScript.Proofs.Number.Sum
import RuleScript.Proofs.Number.Truncation
import RuleScript.Proofs.Number.Word
import RuleScript.Proofs.Policy.Basic
import RuleScript.Proofs.Policy.Evaluation
import RuleScript.Proofs.Policy.Keeping
import RuleScript.Proofs.Policy.Library
import RuleScript.Proofs.Policy.Session
import RuleScript.Proofs.Realm.Basic
import RuleScript.Proofs.Realm.Evaluation
import RuleScript.Proofs.Realm.Keeping
import RuleScript.Proofs.Realm.Library
import RuleScript.Proofs.Realm.Rendering
import RuleScript.Proofs.Reduction.Assignment
import RuleScript.Proofs.Reduction.Concurrence
import RuleScript.Proofs.Reduction.Expression
import RuleScript.Proofs.Reduction.Interchange
import RuleScript.Proofs.Reduction.Neighbours
import RuleScript.Proofs.Reduction.Operand
import RuleScript.Proofs.Reduction.Precedence
import RuleScript.Proofs.Reduction.Prefix
import RuleScript.Proofs.Reduction.Progress
import RuleScript.Proofs.Reduction.SignedNumber
import RuleScript.Proofs.Reduction.SignedOperand
import RuleScript.Proofs.Reduction.Steps
import RuleScript.Proofs.Reduction.Surroundings
import RuleScript.Proofs.Reduction.Windows
import RuleScript.Proofs.Rendering
import RuleScript.Proofs.Sorting.Conservation
import RuleScript.Proofs.Sorting.Course
import RuleScript.Proofs.Sorting.Dialogue
import RuleScript.Proofs.Sorting.Merging
import RuleScript.Proofs.Sorting.Ordering
import RuleScript.Proofs.Sorting.Rearrangement
import RuleScript.Proofs.Sorting.Searching
import RuleScript.Proofs.Source.Language
import RuleScript.Proofs.Source.Lines
import RuleScript.Proofs.Source.Literal
import RuleScript.Proofs.Source.Matching
import RuleScript.Proofs.Source.Nesting
import RuleScript.Proofs.Source.NumberToken
import RuleScript.Proofs.Source.Outlines
import RuleScript.Proofs.Source.Parsing
import RuleScript.Proofs.Source.Placement
import RuleScript.Proofs.Source.Printing
import RuleScript.Proofs.Source.Quotation
import RuleScript.Proofs.Source.Scanning
import RuleScript.Proofs.Source.Tokens
import RuleScript.Proofs.Values.Acyclic
import RuleScript.Proofs.Values.Conversion
import RuleScript.Proofs.Values.Copy
import RuleScript.Proofs.Values.Data
import RuleScript.Proofs.Values.Delivery
import RuleScript.Proofs.Values.Display
import RuleScript.Proofs.Values.Equality
import RuleScript.Proofs.Values.Independence
import RuleScript.Proofs.Values.Presence
import RuleScript.Proofs.Values.Results
import RuleScript.Reduction.Evaluate
import RuleScript.Reduction.Literal
import RuleScript.Reduction.Operator
import RuleScript.Reduction.Rule
import RuleScript.Runner.Console
import RuleScript.Runner.Environment
import RuleScript.Runner.Report
import RuleScript.Runner.Root
import RuleScript.Runner.Session
import RuleScript.Source.Grammar
import RuleScript.Source.Node
import RuleScript.Source.Outline
import RuleScript.Source.Tree
import RuleScript.Table
import RuleScript.Template.Piece
import RuleScript.Template.Render
import RuleScript.Template.Tag
import RuleScript.Template.View
import RuleScript.Text.Blank
import RuleScript.Text.Case
import RuleScript.Text.CaseTable
import RuleScript.Text.Digit
import RuleScript.Text.PrintableTable
import RuleScript.Text.Quoted
import RuleScript.Text.Range
import RuleScript.Text.Search
import RuleScript.Text.Utf8
import RuleScript.Text.Word
import RuleScript.Text.WordTable
import RuleScript.Value
