import Arith.Document.Session
import Arith.Main
import Arith.Proofs.Command.Endings
import Arith.Proofs.Document.Report
import Arith.Proofs.Document.Selection
import Arith.Proofs.Expr.Layout
import Arith.Proofs.Token.Classes
import Arith.Proofs.Token.Failing
import Arith.Proofs.Token.Reached
import Arith.Proofs.Window.Cursor
import Arith.Text.Matcher
import Arith.Proofs.Document.Breaks
import Arith.Proofs.Command.Output
import Arith.Proofs.Text.Codes
import Arith.Proofs.Document.Bounds
import Arith.Proofs.Expr.Items
import Arith.Proofs.Expr.Readers
import Arith.Proofs.Document.Splitting
import Arith.Proofs.Document.Places
import Arith.Proofs.Expr.Chains
import Arith.Proofs.Expr.Checks
import Arith.Proofs.Expr.Operations
import Arith.Proofs.Expr.Deferral
import Arith.Proofs.Window.Return
import Arith.Proofs.Window.Last
import Arith.Proofs.Token.Shifting
import Arith.Proofs.Token.Joining
import Arith.Proofs.Token.Progress
import Arith.Proofs.Command.Agreement
import Arith.Proofs.Expr.Writing
import Arith.Proofs.Expr.LineBreaks
import Arith.Proofs.Text.Reading
