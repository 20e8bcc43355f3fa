import Conic.Stacked.Backend
import Conic.Proofs.DenseVector
import Conic.Proofs.SparseMatrix.Product
import Conic.Proofs.AffineExpr
import Conic.Proofs.ConeProgram.Rows
import Conic.Proofs.ConeProgram.Slack
import Conic.Proofs.ConeProgram.Assembly
import Conic.Proofs.ConeProgram.ExpOrder
import Conic.Proofs.Recovery
import Conic.Proofs.ConeProgram.Ownership
import Conic.Proofs.ConeProgram.Feasibility
import Conic.Proofs.ConeProgram.Multipliers
import Conic.Proofs.Stacked.RowOrder
import Conic.Proofs.Stacked.Cones
import Conic.Proofs.Stacked.Equivalence
import Conic.Proofs.SparseMatrix.Canonical
import Conic.Proofs.ConeProgram.Shape
import Conic.Proofs.ConeProgram.Stacks
import Conic.Proofs.Stacked.Ownership
import Conic.Proofs.ConeProgram.Picking
import Conic.Proofs.ConeProgram.Splitting
import Conic.Proofs.Expressions.Operations
import Conic.Proofs.Expressions.Terms
import Conic.Proofs.Blocks
import Conic.Proofs.ConeProgram.Faults
import Conic.Proofs.ConeProgram.Refusal
import Conic.Proofs.ConeProgram.Shuffles
import Conic.Proofs.Identifiers
import Conic.Proofs.Stacked.Solving
import Conic.Proofs.Segments
import Conic.Proofs.Outcome
import Conic.Proofs.Expressions.Sums
import Conic.Proofs.ConeProgram.Placement
import Conic.Proofs.ConeProgram.TripleOrders
import Conic.Proofs.Joining
import Conic.Proofs.Comparisons
import Conic.Proofs.Stacked.Guard
import Conic.Proofs.SortedMap
import Conic.Proofs.Text.ByteOrder
import Conic.Proofs.SolverOptions
import Conic.Proofs.Stacked.Settings
import Conic.Proofs.SparseMatrix.Triplets
import Conic.Proofs.SparseMatrix.Rows
import Conic.Proofs.SparseMatrix.Dense
import Conic.Proofs.FirstWidths
import Conic.Proofs.Numbering
import Conic.Proofs.ConeCounts
