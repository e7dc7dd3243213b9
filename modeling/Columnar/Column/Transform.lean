import Columnar.Column.Operators
/-!
# Filtering and mapping columns

Operations that pick rows or replace them one by one. Most of them rebuild the column from a list
of rows; clamping and filling nulls also work in place.
-/

namespace Columnar.Column

variable {k : Kind}

/-- The rows whose value lies between two bounds; nulls are dropped. -/
def filter (c : Column k) (lower upper : k.Value) : Traced (Column k) := do
  check k (.comparison .greaterOrEqual)
  c.rebuild <| c.rows.filter fun
    | some v =>
      Comparison.lessOrEqual.evaluate lower v && Comparison.lessOrEqual.evaluate v upper
    | none => false

/-- The rows at which a mask is true; where the mask is null, the row is dropped. -/
def filterByMask (c : Column k) (mask : Column .bool) : Traced (Column k) := do
  if mask.len != c.len then throw (.lengthMismatch c.len mask.len)
  c.rebuild <| ((c.rows.zip mask.rows).filter fun (_, keep) => keep == some true).map Prod.fst

/-- Clamp the values of the rows between two bounds. -/
def clipInPlace (lower upper : k.Value) : Edit (Column k) Unit := do
  check k (.comparison .greaterOrEqual)
  onContainer (Edit.updates (Container.clip lower upper))

/-- The column with its values clamped between two bounds. -/
def clip (c : Column k) (lower upper : k.Value) : Traced (Column k) :=
  (clipInPlace lower upper).runOn c.copy

/-- Give every null a value. -/
def fillNullsInPlace (v : k.Value) : Edit (Column k) Unit :=
  onContainer (Edit.updates (Container.fillNulls v))

/-- The column in which every null has a value. -/
def fillNulls (c : Column k) (v : k.Value) : Traced (Column k) :=
  (fillNullsInPlace v).runOn c.copy

/-- The rows that hold a value. -/
def dropNulls (c : Column k) : Traced (Column k) := c.rebuild (c.rows.filter Option.isSome)

/-- A column that is true where this one is null; it has no nulls itself. -/
def isNullMask (c : Column k) : Traced (Column .bool) :=
  c.rebuild (l := .bool) (c.rows.map fun cell => some cell.isNone)

/-- The column of the images of the rows under a function. -/
def apply (c : Column k) (f : Cell k → Cell k) : Traced (Column k) := c.rebuild (c.rows.map f)

/-- Replace every row by its image under a function. -/
def applyInPlace (f : Cell k → Cell k) : Edit (Column k) Unit :=
  onContainer (Container.applyInPlace f)

/-- The first `count` rows, or all if there are fewer. -/
def head (c : Column k) (count : Nat) : Traced (Column k) := c.rebuild (c.rows.take count)

/-- The last `count` rows, or all if there are fewer. -/
def tail (c : Column k) (count : Nat) : Traced (Column k) :=
  c.rebuild (c.rows.drop (c.len - count))

end Columnar.Column
