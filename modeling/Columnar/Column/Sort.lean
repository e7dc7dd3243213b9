import Columnar.Column.Transform
/-!
# Sorting columns

Rows are sorted by the keys of their values, nulls last. Rows with equal keys, and nulls, stay in
their order in both directions.
-/

namespace Columnar.Column

variable {k : Kind}

/-- Whether a key may stand before another one. -/
def keyPrecedes (ascending : Bool) (a b : Int) : Bool := if ascending then a ≤ b else b ≤ a

/-- The row numbers in sorted order. -/
def sortedOrder (c : Column k) (ascending : Bool) : List Nat :=
  let numbered := c.rows.zipIdx
  let valid := numbered.filterMap fun (cell, row) =>
    cell.map fun v => (Kind.Value.key v, row)
  let nulls := numbered.filterMap fun (cell, row) => if cell.isNone then some row else none
  let sorted := valid.mergeSort fun a b => keyPrecedes ascending a.1 b.1
  sorted.map Prod.snd ++ nulls

/-- The column of the row numbers in sorted order. -/
def argsort (c : Column k) (ascending : Bool) : Traced (Column .uint64) :=
  c.rebuild (l := .uint64) ((c.sortedOrder ascending).map fun row => some (UInt64.ofNat row))

/-- The rows in sorted order. -/
def sort (c : Column k) (ascending : Bool) : Traced (Column k) := do
  c.selectByColumn (← c.argsort ascending) false

end Columnar.Column
