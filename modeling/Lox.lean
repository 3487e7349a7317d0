import Lox.Main
import Lox.Token.Describe
import Lox.Proofs.Eval.CutOff
import Lox.Proofs.Eval.Likeness
import Lox.Proofs.Eval.Reachability
import Lox.Proofs.Grammar.Acceptance
import Lox.Proofs.Grammar.RoundTrip
import Lox.Proofs.Eval.Termination
import Lox.Proofs.Eval.Return
import Lox.Proofs.Grammar.Stacked
import Lox.Proofs.Eval.Relabel
import Lox.Proofs.Script
import Lox.Proofs.Token.Decomposition
import Lox.Proofs.Eval.Binding
import Lox.Proofs.Eval.Loop
import Lox.Proofs.Grammar.Progress
import Lox.Proofs.Eval.Ancestry
import Lox.Proofs.Eval.Origin
import Lox.Proofs.Rejection
import Lox.Proofs.Grammar.Isolation
import Lox.Proofs.Eval.Lines
import Lox.Proofs.Eval.Renaming
import Lox.Proofs.Eval.Lookup
import Lox.Proofs.Grammar.Kinds
import Lox.Proofs.Grammar.Identifiers
import Lox.Proofs.Grammar.ForLoop
import Lox.Proofs.Eval.DeadCode
import Lox.Proofs.Eval.Depth
import Lox.Proofs.Grammar.Resumption
import Lox.Proofs.Token.Lines
import Lox.Proofs.Token.Spacing
import Lox.Proofs.Grammar.Complaints
import Lox.Proofs.Token.Nesting
import Lox.Proofs.Eval.Identity
import Lox.Proofs.Decimal.Bits
import Lox.Proofs.Decimal.ReadBack
import Lox.Proofs.Literal
import Lox.Proofs.Eval.Clock
