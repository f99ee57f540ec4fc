import StraightLine.Double.Bits
import StraightLine.Proofs.Double.Lossless
import StraightLine.Proofs.Evaluation.Soundness
import StraightLine.Proofs.Report.Account
import StraightLine.Proofs.Source.Attribution
import StraightLine.Proofs.Evaluation.Operands
import StraightLine.Proofs.Tree.Names
import StraightLine.Proofs.Evaluation.Assignment
import StraightLine.Proofs.Evaluation.Comparison
import StraightLine.Proofs.Evaluation.Kinds
import StraightLine.Proofs.Evaluation.Grouping
import StraightLine.Proofs.Evaluation.Substitution
import StraightLine.Proofs.Evaluation.Locality
import StraightLine.Proofs.Evaluation.Replacement
import StraightLine.Proofs.Evaluation.Composition
import StraightLine.Proofs.Double.Nearest
import StraightLine.Proofs.Evaluation.DecimalLiteral
import StraightLine.Proofs.Evaluation.Silence
import StraightLine.Proofs.Evaluation.Reordering
import StraightLine.Proofs.Evaluation.DeclaredKinds
import StraightLine.Proofs.Evaluation.IntegerExpression
import StraightLine.Proofs.Double.Canonical
import StraightLine.Proofs.Double.Minimal
import StraightLine.Proofs.Evaluation.Promotion
import StraightLine.Proofs.Evaluation.IntegerQuotient
import StraightLine.Proofs.Evaluation.IntegerLiteral
import StraightLine.Proofs.Evaluation.Concatenation
import StraightLine.Proofs.Report.Carets
import StraightLine.Proofs.Source.Hull
import StraightLine.Proofs.Source.OneSource
import StraightLine.Proofs.Source.Requests
import StraightLine.Proofs.Source.Recency
import StraightLine.Proofs.Report.Headings
import StraightLine.Proofs.Report.Transparency
import StraightLine.Proofs.Report.Audit
import StraightLine.Proofs.Evaluation.Faults
import StraightLine.Proofs.Report.Limit
