import DiffGraph.Config
import DiffGraph.Data.ArrayText
import DiffGraph.Data.Bare
import DiffGraph.Data.ColumnText
import DiffGraph.Data.Datum
import DiffGraph.Data.Discovery
import DiffGraph.Data.ElementType
import DiffGraph.Data.EntryType
import DiffGraph.Data.Leaf
import DiffGraph.Data.Literal
import DiffGraph.Data.NumArray
import DiffGraph.Data.Operand
import DiffGraph.Data.Stored
import DiffGraph.Data.TypeName
import DiffGraph.Data.TypeRequest
import DiffGraph.Decimal.Digits
import DiffGraph.Decimal.Layout
import DiffGraph.Decimal.Magnitude
import DiffGraph.Engine.Backward
import DiffGraph.Engine.Evaluation
import DiffGraph.Engine.Invalidation
import DiffGraph.Expression
import DiffGraph.Gradient
import DiffGraph.Graph.Action
import DiffGraph.Graph.Actions
import DiffGraph.Graph.Basic
import DiffGraph.Graph.Call
import DiffGraph.Graph.Fault
import DiffGraph.Graph.Names
import DiffGraph.Graph.Ref
import DiffGraph.Logging
import DiffGraph.Operator.Basic
import DiffGraph.Operator.Operations
import DiffGraph.Operator.Rules
import DiffGraph.Operator.TensorRules
import DiffGraph.Proofs.Calculus.Numbers
import DiffGraph.Proofs.Calculus.Partials
import DiffGraph.Proofs.Calculus.Slopes
import DiffGraph.Proofs.Calculus.Trees
import DiffGraph.Proofs.Data.Conversion
import DiffGraph.Proofs.Data.Leaf
import DiffGraph.Proofs.Engine.Arena
import DiffGraph.Proofs.Engine.Backward
import DiffGraph.Proofs.Engine.BrokenPass
import DiffGraph.Proofs.Engine.Coherence
import DiffGraph.Proofs.Engine.Commutation
import DiffGraph.Proofs.Engine.Course
import DiffGraph.Proofs.Engine.Dependents
import DiffGraph.Proofs.Engine.Evaluation
import DiffGraph.Proofs.Engine.Gives
import DiffGraph.Proofs.Engine.History
import DiffGraph.Proofs.Engine.Holding
import DiffGraph.Proofs.Engine.Invalidation
import DiffGraph.Proofs.Engine.Naming
import DiffGraph.Proofs.Engine.PassShapes
import DiffGraph.Proofs.Engine.PathSum
import DiffGraph.Proofs.Engine.Preorder
import DiffGraph.Proofs.Engine.Recall
import DiffGraph.Proofs.Engine.Recomputation
import DiffGraph.Proofs.Engine.Refusal
import DiffGraph.Proofs.Engine.Session
import DiffGraph.Proofs.Engine.Timeline
import DiffGraph.Proofs.Engine.Transpose
import DiffGraph.Proofs.Engine.Underway
import DiffGraph.Proofs.Gradient.Building
import DiffGraph.Proofs.Gradient.Inputs
import DiffGraph.Proofs.Gradient.OnePass
import DiffGraph.Proofs.Gradient.Passes
import DiffGraph.Proofs.Gradient.Twins
import DiffGraph.Proofs.Graph.Change
import DiffGraph.Proofs.Graph.Difference
import DiffGraph.Proofs.Graph.Fields
import DiffGraph.Proofs.Graph.Growth
import DiffGraph.Proofs.Graph.Lookup
import DiffGraph.Proofs.Graph.Replies
import DiffGraph.Proofs.Graph.Unfolding
import DiffGraph.Proofs.Graph.WellFormed
import DiffGraph.Proofs.Operator.ElementTypes
import DiffGraph.Proofs.Operator.Shapes
import DiffGraph.Proofs.Operator.Tangents
import DiffGraph.Proofs.Outcomes
import DiffGraph.Proofs.Report.Statistics
import DiffGraph.Proofs.Tensor.Adjoint
import DiffGraph.Proofs.Tensor.Broadcast
import DiffGraph.Proofs.Tensor.Entries
import DiffGraph.Proofs.Tensor.Reduce
import DiffGraph.Proofs.Tensor.Stretching
import DiffGraph.Report.Statistics
import DiffGraph.Report.Text
import DiffGraph.Scalar.Arithmetic
import DiffGraph.Scalar.Complex
import DiffGraph.Scalar.ComplexFunctions
import DiffGraph.Scalar.DType
import DiffGraph.Scalar.Machine
import DiffGraph.Tensor.Basic
import DiffGraph.Tensor.Error
import DiffGraph.Tensor.Grid
import DiffGraph.Tensor.Reduce
import DiffGraph.Tensor.Shape
import DiffGraph.Text.Align
import DiffGraph.Text.Printable
import DiffGraph.Text.Quoted
import DiffGraph.Text.Whole
