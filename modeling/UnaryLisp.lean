import UnaryLisp.Main
import UnaryLisp.Session
import UnaryLisp.Proofs.Expr.Reading
import UnaryLisp.Proofs.Eval.Adequacy
import UnaryLisp.Proofs.Eval.Threshold
import UnaryLisp.Proofs.Eval.Alpha
import UnaryLisp.Proofs.Eval.Scope
import UnaryLisp.Proofs.Eval.Substitution
import UnaryLisp.Proofs.Eval.Renumbering
import UnaryLisp.Proofs.Program.Evaluation
import UnaryLisp.Proofs.Program.Pool
import UnaryLisp.Proofs.Eval.Coincidence
import UnaryLisp.Proofs.Eval.Reuse
import UnaryLisp.Proofs.Form.Bracketing
import UnaryLisp.Proofs.Program.Registers
import UnaryLisp.Proofs.Form.Sequence
import UnaryLisp.Proofs.Program.Single
import UnaryLisp.Proofs.Program.Concatenation
import UnaryLisp.Proofs.Expr.Refusal
import UnaryLisp.Proofs.Program.Brackets
import UnaryLisp.Proofs.Expr.Tokens
import UnaryLisp.Proofs.Form.Depth
import UnaryLisp.Proofs.Form.Arrangement
import UnaryLisp.Proofs.Form.Verdict
import UnaryLisp.Proofs.Expr.Locality
import UnaryLisp.Proofs.Eval.Application
import UnaryLisp.Proofs.Eval.Arithmetic
import UnaryLisp.Proofs.Eval.Height
import UnaryLisp.Proofs.Eval.Naming
import UnaryLisp.Proofs.Program.Printing
import UnaryLisp.Proofs.Command.Line
import UnaryLisp.Proofs.Expr.LongestMatch
import UnaryLisp.Proofs.Expr.Nesting
