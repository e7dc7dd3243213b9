import Columnar.Container.Builder
import Columnar.Container.Layout
/-!
# Comparing containers

A comparison builds a container of booleans under the options of the left operand. A row of the
result is null if an operand is null there.
-/

namespace Columnar.Container

variable {k : Kind}

/-- The verdict on two rows. -/
def compareCells (op : Comparison) : Cell k → Cell k → Cell .bool
  | some a, some b => some (op.evaluate a b)
  | _, _ => none

/-- The verdicts of a comparison of two containers, which have to be cut into the same chunks. -/
def compare (op : Comparison) (left right : Container k) : Traced (Container .bool) := do
  k.arithmetic.support.check k (.comparison op)
  checkLayout left right
  ofRows ((chunkPairs left right).flatMap fun (l, r) => l.rows.zipWith (compareCells op) r.rows)
    left.options

/-- The verdicts of a comparison of the rows with a scalar. -/
def compareScalar (op : Comparison) (left : Container k) (scalar : k.Value) :
    Traced (Container .bool) := do
  k.arithmetic.support.check k (.comparison op)
  ofRows (left.rows.map fun cell => compareCells op cell (some scalar)) left.options

end Columnar.Container
