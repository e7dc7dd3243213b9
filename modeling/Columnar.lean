import Columnar.AnyColumn
import Columnar.Arrow.Exchange
import Columnar.Proofs.Chunk.Allocation
import Columnar.Proofs.Chunk.Buffer
import Columnar.Proofs.Column.Alike
import Columnar.Proofs.Column.Batching
import Columnar.Proofs.Column.Binary
import Columnar.Proofs.Column.Broadcast
import Columnar.Proofs.Column.Chunking
import Columnar.Proofs.Column.DistinctCount
import Columnar.Proofs.Column.Division
import Columnar.Proofs.Column.Equality
import Columnar.Proofs.Column.Exchange
import Columnar.Proofs.Column.Filtering
import Columnar.Proofs.Column.InPlace
import Columnar.Proofs.Column.Layout
import Columnar.Proofs.Column.NullCounts
import Columnar.Proofs.Column.Partition
import Columnar.Proofs.Column.Remainder
import Columnar.Proofs.Column.Robust
import Columnar.Proofs.Column.Running
import Columnar.Proofs.Column.Selection
import Columnar.Proofs.Column.Shifts
import Columnar.Proofs.Column.Sorting
import Columnar.Proofs.Column.Summary
import Columnar.Proofs.Column.Totals
import Columnar.Proofs.Container.RawBytes
import Columnar.Proofs.Container.Report
import Columnar.Proofs.Container.Simulation
import Columnar.Proofs.Decimal.Canonical
import Columnar.Proofs.Decimal.Checked
import Columnar.Proofs.Decimal.RoundTrip
import Columnar.Proofs.Distinct.ExactPhase
import Columnar.Reader
import Columnar.View
