import Lookahead.Pipeline
import Lookahead.Proofs.Parse.ErrorPosition
import Lookahead.Scan.Scanner
import Lookahead.Tree.Edit
import Lookahead.Proofs.Grammar.Begins
import Lookahead.Proofs.Grammar.Trails
import Lookahead.Proofs.Grammar.LL1
import Lookahead.Proofs.Program.Concatenation
import Lookahead.Proofs.Scan.Tiling
import Lookahead.Proofs.Parse.Trace
import Lookahead.Proofs.Parse.Collapse
import Lookahead.Proofs.Parse.LeftRecursion
import Lookahead.Proofs.Parse.Rejection
import Lookahead.Proofs.Program.Verdict
import Lookahead.Proofs.Program.Punctuation
import Lookahead.Proofs.Scan.Position
import Lookahead.Proofs.Decimal.Numeral
import Lookahead.Proofs.Scan.Readable
import Lookahead.Proofs.Scan.Sight
import Lookahead.Proofs.Scan.Blanking
import Lookahead.Proofs.Program.Association
import Lookahead.Proofs.Scan.Munch
import Lookahead.Proofs.Scan.Spacing
import Lookahead.Proofs.Scan.Lines
import Lookahead.Proofs.Grammar.Strict
import Lookahead.Proofs.Grammar.Conflicts
import Lookahead.Proofs.Parse.Erasure
import Lookahead.Proofs.Script.Unknown
import Lookahead.Proofs.Program.Levels
import Lookahead.Proofs.Program.Children
import Lookahead.Proofs.Grammar.Grid
import Lookahead.Proofs.Program.Raw
