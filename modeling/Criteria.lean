import Criteria.Filter.Exchange
import Criteria.Main
import Criteria.Proofs.Text.Cut
import Criteria.Proofs.Filter.Reading
import Criteria.Proofs.Filter.Flat
import Criteria.Proofs.Filter.Detach
import Criteria.Proofs.Filter.Alike
import Criteria.Proofs.Filter.Division
import Criteria.Proofs.Filter.Meaning
import Criteria.Proofs.Filter.Simulation
import Criteria.Proofs.Filter.Merge
import Criteria.Proofs.Filter.Position
import Criteria.Proofs.Filter.Recognition
import Criteria.Proofs.Number.Standard
import Criteria.Proofs.Value.RoundTrip
import Criteria.Proofs.Filter.Tree
import Criteria.Proofs.Filter.Written
import Criteria.Proofs.Filter.RoundTrip
import Criteria.Proofs.Filter.Canonical
import Criteria.Proofs.Param.Memory
import Criteria.Proofs.Param.Parts
import Criteria.Proofs.Filter.Shape
import Criteria.Proofs.Literal.Joined
import Criteria.Proofs.Param.Failure
import Criteria.Proofs.Options.Distinct
import Criteria.Proofs.Param.Narrow
import Criteria.Proofs.Param.Order
import Criteria.Proofs.Filter.Pinned
import Criteria.Proofs.Literal.Contents
import Criteria.Proofs.Literal.Restore
import Criteria.Proofs.Filter.Contents
import Criteria.Proofs.Literal.Canonical
import Criteria.Proofs.Param.Addition
import Criteria.Proofs.Filter.Collapse
import Criteria.Proofs.Filter.Modes
import Criteria.Proofs.Filter.Negation
import Criteria.Proofs.Text.Stretch
import Criteria.Proofs.Filter.Spacing
import Criteria.Proofs.Text.Squeeze
import Criteria.Proofs.Filter.Respaced
import Criteria.Proofs.Value.Pieces
import Criteria.Proofs.Value.Numeric
import Criteria.Proofs.Filter.Span
import Criteria.Proofs.Filter.Listed
import Criteria.Proofs.Literal.Delimiter
import Criteria.Proofs.Filter.Table
import Criteria.Proofs.Filter.Bracket
import Criteria.Proofs.Request.Separation
