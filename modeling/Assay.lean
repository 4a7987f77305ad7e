import Assay.Analysis
import Assay.Cancellation
import Assay.Command.Event
import Assay.Command.Fault
import Assay.Command.Flag
import Assay.Command.Line
import Assay.Command.Run
import Assay.Command.Word
import Assay.Disk.Basic
import Assay.Disk.SettingsFile
import Assay.Disk.Tree
import Assay.Entries
import Assay.Error
import Assay.Expr.Arithmetic
import Assay.Expr.Basic
import Assay.Expr.Reader
import Assay.Expr.Text
import Assay.Flow.Dot
import Assay.Flow.Graph
import Assay.Log
import Assay.Page
import Assay.Program.Basic
import Assay.Program.Layout
import Assay.Program.Meaning
import Assay.Program.Reader
import Assay.Program.Text
import Assay.Program.Unroll
import Assay.Report
import Assay.Session
import Assay.Settings
import Assay.Smt.Closed
import Assay.Smt.Encoder
import Assay.Smt.Equivalence
import Assay.Smt.Meaning
import Assay.Smt.Script
import Assay.Smt.Sexp
import Assay.Solver
import Assay.Stream.Basic
import Assay.Stream.Interface
import Assay.Stream.OfProgram
import Assay.Stream.Rename
import Assay.Stream.Simplify
import Assay.Stream.Symbol
import Assay.Stream.Text
import Assay.Stream.Versions
import Assay.Text.Blank
import Assay.Text.Digit
import Assay.Text.Integer
import Assay.Text.Printable
import Assay.Text.Quoted
import Assay.Text.Ranges
import Assay.Text.Surrogate
import Assay.Text.Upper
import Assay.Text.Utf8
import Assay.Text.Word
import Assay.Valuation
import Assay.Value.Basic
import Assay.Value.Reader
import Assay.Value.Shortest
import Assay.Value.Text
import Assay.Value.Writer
import Assay.Main
import Assay.Proofs.Symbols
import Assay.Proofs.Terms
import Assay.Proofs.Encoding
import Assay.Proofs.Equations
import Assay.Proofs.Building
import Assay.Proofs.Simulation
import Assay.Proofs.Solutions
import Assay.Proofs.Verification
import Assay.Proofs.Folding
import Assay.Proofs.Simplifying
import Assay.Proofs.Interface
import Assay.Proofs.Faults
import Assay.Proofs.Comparing
import Assay.Proofs.Consistency
import Assay.Proofs.Sorting
import Assay.Proofs.Regularity
import Assay.Proofs.Equivalence
import Assay.Proofs.Observing
import Assay.Proofs.Executing
import Assay.Proofs.Unrolling
import Assay.Proofs.Traversing
import Assay.Proofs.Liveness
import Assay.Proofs.Tracing
import Assay.Proofs.Copying
import Assay.Proofs.LastDefinitions
import Assay.Proofs.LoopVerification
import Assay.Proofs.SelfComparison
import Assay.Proofs.Symmetry
import Assay.Proofs.Splitting
import Assay.Proofs.Readable
import Assay.Proofs.DigitLimit
import Assay.Proofs.Requests
import Assay.Proofs.Reading
import Assay.Proofs.Rows
import Assay.Proofs.Forms
import Assay.Proofs.Rendering
import Assay.Proofs.Callbacks
import Assay.Proofs.Sessions
import Assay.Proofs.Determination
import Assay.Proofs.Reaching
import Assay.Proofs.DefinitionOrder
import Assay.Proofs.Operations
import Assay.Proofs.ArraySorts
import Assay.Proofs.ProgramNames
import Assay.Proofs.SexpReading
import Assay.Proofs.SexpValues
import Assay.Proofs.WellSorted
import Assay.Proofs.FinalVersions
import Assay.Proofs.Convergence
import Assay.Proofs.RenamedPasses
import Assay.Proofs.ScriptReading
import Assay.Proofs.SuffixTokens
import Assay.Proofs.Histories
import Assay.Proofs.Parts
import Assay.Proofs.Accepting
import Assay.Proofs.Locating
import Assay.Proofs.Respacing
import Assay.Proofs.Forests
import Assay.Proofs.FlowTrees
import Assay.Proofs.Loading
import Assay.Proofs.Exits
