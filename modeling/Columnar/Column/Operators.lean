import Columnar.Column.Basic
import Columnar.Container.Broadcast
import Columnar.Container.Compare
/-!
# Operators on columns

Every operator first makes sure that it is legal for the kind. The forms that give a new column
work on a copy; the others change the column itself.
-/

namespace Columnar.Column

variable {k : Kind}

/-- Refuse an operator that is not legal for the kind. -/
def check (k : Kind) (op : Operator) : Except ColumnError Unit :=
  k.arithmetic.support.check k op

/-- Apply a binary operator to this column and another. -/
def binaryInPlace (op : BinaryOp) (other : Column k) : Edit (Column k) Unit := do
  check k (.binary op)
  onContainer (Container.binary op other.container)

/-- The column of a binary operator on this column and another. -/
def binary (c : Column k) (op : BinaryOp) (other : Column k) : Traced (Column k) := do
  check k (.binary op)
  (binaryInPlace op other).runOn c.copy

/-- Apply a binary operator to this column and a scalar, which stands on the left if reversed. -/
def binaryScalarInPlace (op : BinaryOp) (scalar : k.Value) (reverse : Bool) :
    Edit (Column k) Unit := do
  check k (.binary op)
  onContainer (Container.binaryScalar op scalar reverse)

/-- The column of a binary operator on this column and a scalar, which stands on the left if
reversed. -/
def binaryScalar (c : Column k) (op : BinaryOp) (scalar : k.Value) (reverse : Bool) :
    Traced (Column k) := do
  check k (.binary op)
  (binaryScalarInPlace op scalar reverse).runOn c.copy

/-- Shift every value by an amount. -/
def shiftInPlace (op : ShiftOp) (amount : Int32) : Edit (Column k) Unit := do
  check k (.shift op)
  onContainer (Container.shift op amount)

/-- The column with every value shifted by an amount. -/
def shift (c : Column k) (op : ShiftOp) (amount : Int32) : Traced (Column k) := do
  check k (.shift op)
  (shiftInPlace op amount).runOn c.copy

/-- The verdicts of a comparison with another column, row by row; null where an operand is. -/
def compare (c : Column k) (op : Comparison) (other : Column k) : Traced (Column .bool) :=
  return ⟨c.name, ← Container.compare op c.container other.container⟩

/-- The verdicts of a comparison with a scalar, row by row; null where the column is. -/
def compareScalar (c : Column k) (op : Comparison) (scalar : k.Value) : Traced (Column .bool) :=
  return ⟨c.name, ← Container.compareScalar op c.container scalar⟩

end Columnar.Column
