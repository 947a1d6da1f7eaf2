import ExactCalculator.Desk
import ExactCalculator.Run.Record
import ExactCalculator.Main
import ExactCalculator.Proofs.Decimal.Nearest
import ExactCalculator.Proofs.Decimal.NormalForm
import ExactCalculator.Proofs.Decimal.Numeral
import ExactCalculator.Proofs.Expression
import ExactCalculator.Proofs.Items
import ExactCalculator.Proofs.Run.Steps
import ExactCalculator.Proofs.Evaluation
import ExactCalculator.Proofs.Schedule
import ExactCalculator.Proofs.TwoPasses
import ExactCalculator.Proofs.Run.Frame
import ExactCalculator.Proofs.Substitution
import ExactCalculator.Proofs.Run.Forest
import ExactCalculator.Proofs.Composition
import ExactCalculator.Proofs.Slices
import ExactCalculator.Proofs.Tiling
import ExactCalculator.Proofs.Run.Blame
import ExactCalculator.Proofs.Diagnosis
import ExactCalculator.Proofs.FailFast
import ExactCalculator.Proofs.Grouping
import ExactCalculator.Proofs.Spacing
import ExactCalculator.Proofs.Balance
import ExactCalculator.Proofs.Run.Ending
import ExactCalculator.Proofs.CaseLine
import ExactCalculator.Proofs.Counting
import ExactCalculator.Proofs.Pairing
import ExactCalculator.Proofs.Alphabet
import ExactCalculator.Proofs.Decimal.Quotient
import ExactCalculator.Proofs.RoundTrip
import ExactCalculator.Proofs.Postorder
import ExactCalculator.Proofs.Run.Invariant
import ExactCalculator.Proofs.Log
import ExactCalculator.Proofs.CaseRows
import ExactCalculator.Proofs.Sessions
import ExactCalculator.Proofs.Decimal.Arithmetic
import ExactCalculator.Proofs.Decimal.Digits
import ExactCalculator.Proofs.Decimal.WrittenForm
import ExactCalculator.Proofs.Decimal.Canonical
import ExactCalculator.Proofs.Readings
import ExactCalculator.Proofs.Decimal.FirstMisfit
import ExactCalculator.Proofs.LineNumbers
import ExactCalculator.Proofs.CaseFiles
import ExactCalculator.Proofs.BlankLines
import ExactCalculator.Proofs.Run.Pending
import ExactCalculator.Proofs.Run.Operands
import ExactCalculator.Proofs.Decimal.PlaceCount
import ExactCalculator.Proofs.Run.Charges
import ExactCalculator.Proofs.Run.Scales
