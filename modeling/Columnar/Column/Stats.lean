import Columnar.Column.Reduce
import Columnar.Distinct.Counter
/-!
# Column statistics

A summary of a column: its counts, an approximate number of distinct values, its extremes where the
kind has an order and its mean where the kind has arithmetic. The summary is taken in one pass and
reports when the distinct counter spills.
-/

namespace Columnar

/-- A summary of a column. -/
structure Stats where
  /-- The kind of the column. -/
  kind : Kind
  /-- The number of rows. -/
  len : Nat
  /-- The number of nulls. -/
  nullCount : Nat
  /-- The number of distinct values, exact up to a few thousand. -/
  distinctCount : Nat
  /-- The least value, if the kind has an order and the column a value. -/
  min : Option Scalar
  /-- The greatest value, if the kind has an order and the column a value. -/
  max : Option Scalar
  /-- The mean, if the kind has arithmetic and the column a value. -/
  mean : Option Float

namespace Stats

variable {k : Kind}

/-- The bounds of the values seen so far and one more. Only a value beyond a bound replaces it. -/
def widen (bounds : Option (k.Value × k.Value)) (v : k.Value) : Option (k.Value × k.Value) :=
  match bounds with
  | none => some (v, v)
  | some (lo, hi) =>
    some (if Kind.Value.order v lo == .lt then v else lo,
      if Kind.Value.order v hi == .gt then v else hi)

/-- The running quantities of a pass over the values. -/
structure Pass (k : Kind) where
  /-- The number of values so far. -/
  valid : Nat := 0
  /-- Their sum, as floating-point numbers. -/
  sum : Float := 0.0
  /-- The least and the greatest of them. -/
  bounds : Option (k.Value × k.Value) := none

/-- Take in one more value. -/
def Pass.add (p : Pass k) (v : k.Value) : Pass k :=
  ⟨p.valid + 1, p.sum + Kind.Value.toFloat v, widen p.bounds v⟩

/-- The number of distinct values by a counter for as many rows as hold a value. -/
def countDistinct (c : Container k) : Traced Nat := do
  let counter ← (Edit.forEach c.values fun v =>
    Distinct.Counter.insert (Kind.Value.hashBits v)).runOn
      (Distinct.Counter.forRows (c.len - c.nullCount))
  return counter.estimate

/-- The summary of a container. The count of distinct values comes first, as it alone reports. -/
def ofContainer (c : Container k) : Traced Stats := do
  let distinct ← countDistinct c
  let pass := c.values.foldl Pass.add ({} : Pass k)
  let bounds := if k.support.ordering then pass.bounds else none
  return {
    kind := k
    len := c.len
    nullCount := c.nullCount
    distinctCount := distinct
    min := bounds.map fun (lo, _) => .value k lo
    max := bounds.map fun (_, hi) => .value k hi
    mean :=
      if 0 < pass.valid && k.support.arithmetic then
        some (pass.sum / pass.valid.toUInt64.toFloat)
      else none }

end Stats

/-- The summary of a column. -/
def Column.stats {k : Kind} (c : Column k) : Traced Stats := Stats.ofContainer c.container

end Columnar
