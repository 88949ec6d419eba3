import Pseudocode.Span
import Pseudocode.Text.Blank
import Pseudocode.Text.Basic
import Pseudocode.Text.Bounds
import Pseudocode.Text.Hidden
import Pseudocode.Text.Quoted
import Pseudocode.Text.Outline
import Pseudocode.Text.Identifier
import Pseudocode.Text.Distance
import Pseudocode.Text.ClusterClass
import Pseudocode.Text.Cluster
import Pseudocode.Text.Backspace
import Pseudocode.Integer
import Pseudocode.Real.Dyadic
import Pseudocode.Real.Shortest
import Pseudocode.Real.Display
import Pseudocode.Real.Reader
import Pseudocode.Value
import Pseudocode.Operator
import Pseudocode.Lexeme
import Pseudocode.Token.Basic
import Pseudocode.Error
import Pseudocode.Token.Tokenize
import Pseudocode.Arithmetic
import Pseudocode.Term.Basic
import Pseudocode.Term.Order
import Pseudocode.Term.Stack
import Pseudocode.Store.Basic
import Pseudocode.Store.Dump
import Pseudocode.Expression
import Pseudocode.Statement.Basic
import Pseudocode.Statement.Reader
import Pseudocode.Statement.Effect
import Pseudocode.Machine
import Pseudocode.Report
import Pseudocode.Settings
import Pseudocode.Console
import Pseudocode.CommandLine
import Pseudocode.Main
import Pseudocode.Proofs.Infix.Grammar
import Pseudocode.Proofs.Infix.Reordering
import Pseudocode.Proofs.Infix.Placement
import Pseudocode.Proofs.Store.Entries
import Pseudocode.Proofs.Store.Writes
import Pseudocode.Proofs.Store.Valid
import Pseudocode.Proofs.Machine.Reachable
import Pseudocode.Proofs.Statement.Declare
import Pseudocode.Proofs.Machine.Failing
import Pseudocode.Proofs.Scan
import Pseudocode.Proofs.Result
import Pseudocode.Proofs.Text.Outline
import Pseudocode.Proofs.Text.Pieces
import Pseudocode.Proofs.Text.Clause
import Pseudocode.Proofs.Places
import Pseudocode.Proofs.Lexeme.Read
import Pseudocode.Proofs.Lexeme.Lexed
import Pseudocode.Proofs.Expression.Sweep
import Pseudocode.Proofs.Expression.Segments
import Pseudocode.Proofs.Term.Order
import Pseudocode.Proofs.Infix.Summands
import Pseudocode.Proofs.Infix.Mapped
import Pseudocode.Proofs.Term.Types
import Pseudocode.Proofs.Token.Grouped
import Pseudocode.Proofs.Token.Places
import Pseudocode.Proofs.Expression.Sums
import Pseudocode.Proofs.Expression.Mentioned
import Pseudocode.Proofs.Expression.Preserved
import Pseudocode.Proofs.Expression.Types
import Pseudocode.Proofs.Statement.Literals
import Pseudocode.Proofs.Statement.Printed
import Pseudocode.Proofs.Machine.EntryPoints
import Pseudocode.Proofs.Store.Failures
import Pseudocode.Proofs.Expression.Places
import Pseudocode.Proofs.Statement.Places
import Pseudocode.Proofs.Machine.Lines
import Pseudocode.Proofs.Machine.Places
import Pseudocode.Proofs.Machine.Frame
import Pseudocode.Proofs.Machine.Runs
import Pseudocode.Proofs.Real.Finite
import Pseudocode.Proofs.Expression.Finite
import Pseudocode.Proofs.Machine.Constants
import Pseudocode.Proofs.Machine.Finite
import Pseudocode.Proofs.Integer.Division
import Pseudocode.Proofs.Infix.Exact
import Pseudocode.Proofs.Real.Exact
import Pseudocode.Proofs.Real.Order
import Pseudocode.Proofs.Arithmetic.WholeOperands
import Pseudocode.Proofs.Statement.ConstantLiterals
import Pseudocode.Proofs.Expression.Concatenation
import Pseudocode.Proofs.Infix.Postorder
import Pseudocode.Proofs.Term.Reordered
import Pseudocode.Proofs.Expression.Parentheses
import Pseudocode.Proofs.Lexeme.Written
import Pseudocode.Proofs.Token.Respaced
import Pseudocode.Proofs.Expression.Padding
import Pseudocode.Proofs.Statement.Targets
import Pseudocode.Proofs.Lexeme.Names
import Pseudocode.Proofs.Text.Comment
import Pseudocode.Proofs.Statement.Comments
import Pseudocode.Proofs.Machine.Names
import Pseudocode.Proofs.Expression.Comments
import Pseudocode.Proofs.Console.Comments
import Pseudocode.Proofs.Text.Distance
import Pseudocode.Proofs.Expression.Splitting
import Pseudocode.Proofs.Expression.Nesting
import Pseudocode.Proofs.Machine.ReadBack
