import Columnar.Column.Basic
import Std.Data.HashMap
/-!
# Grouping rows by value

Rows with equal keys form a group, which is represented by the value of its first row. Groups are
listed in the order of their first rows; null rows are listed apart.
-/

namespace Columnar

/-- The rows of a column, grouped by value. -/
structure Grouping (k : Kind) where
  /-- The first value of each group and the numbers of its rows, both in order. -/
  groups : Array (k.Value × Array Nat) := #[]
  /-- The numbers of the null rows in order. -/
  nullRows : Array Nat := #[]

namespace Grouping

variable {k : Kind}

/-- A grouping in progress, with the position of the group of each key. -/
structure Progress (k : Kind) where
  /-- The rows grouped so far. -/
  grouping : Grouping k := {}
  /-- Where the group of a key is found. -/
  positions : Std.HashMap Int Nat := {}

/-- Take in one more row. -/
def Progress.add : Progress k → Cell k × Nat → Progress k
  | ⟨⟨groups, nullRows⟩, positions⟩, (none, row) => ⟨⟨groups, nullRows.push row⟩, positions⟩
  | ⟨⟨groups, nullRows⟩, positions⟩, (some v, row) =>
    match positions[Kind.Value.key v]? with
    | some position =>
      let groups := groups.modify position fun | (first, rows) => (first, rows.push row)
      ⟨⟨groups, nullRows⟩, positions⟩
    | none =>
      let positions := positions.insert (Kind.Value.key v) groups.size
      ⟨⟨groups.push (v, #[row]), nullRows⟩, positions⟩

/-- The grouping of a list of rows. -/
def ofRows (rows : List (Cell k)) : Grouping k :=
  (rows.zipIdx.foldl Progress.add {}).grouping

end Grouping

/-- The rows of a column, grouped by value. -/
def Column.groups {k : Kind} (c : Column k) : Grouping k := .ofRows c.rows

end Columnar
