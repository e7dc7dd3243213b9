import Columnar.Container.IndexMap
import Columnar.Container.Update
import Columnar.Scalar
/-!
# Columns

A column is a container with a name. Columns are built from rows, from raw bytes or empty, and
changed by the operations on their containers; cells may also be given as scalars, which then have
to be of the column's kind.
-/

namespace Columnar

/-- A named sequence of rows of one kind. -/
structure Column (k : Kind) where
  /-- The name, which takes part in equality. -/
  name : String
  /-- The rows. -/
  container : Container k

namespace Column

variable {k : Kind}

/-- A column without rows. -/
def empty (name : String) (options : Options := {}) : Column k := ⟨name, .empty options⟩

/-- A column of a list of rows. -/
def ofRows (name : String) (rows : List (Cell k)) (options : Options := {}) :
    Traced (Column k) :=
  return ⟨name, ← Container.ofRows rows options⟩

/-- A column of `len` nulls. -/
def ofLen (name : String) (len : Nat) (options : Options := {}) : Traced (Column k) :=
  return ⟨name, ← Container.ofLen len options⟩

/-- Import `len` rows from little-endian bytes and an optional packed bitmap. -/
def ofRawBytes (name : String) (values : Array UInt8) (validity : Option (Array UInt8))
    (len : Nat) (options : Options := {}) : Traced (Column k) :=
  return ⟨name, ← Container.ofRawBytes values validity len options⟩

/-- The number of rows. -/
def len (c : Column k) : Nat := c.container.len

/-- Whether there are no rows. -/
def isEmpty (c : Column k) : Bool := c.container.isEmpty

/-- The number of nulls, as it is kept along. -/
def nullCount (c : Column k) : Nat := c.container.nullCount

/-- The options under which the rows are cut into chunks. -/
def options (c : Column k) : Options := c.container.options

/-- The rows of the column, in order. -/
def rows (c : Column k) : List (Cell k) := c.container.rows

/-- The values of the rows that have one, in order. -/
def values (c : Column k) : List k.Value := c.container.values

/-- Whether two columns have one name and equal containers. -/
def equals (a b : Column k) : Bool := a.name == b.name && a.container.equals b.container

/-- A column with the same contents and allocations just large enough for them. -/
def copy (c : Column k) : Column k := { c with container := c.container.copy }

/-- The row at an index. -/
def get (c : Column k) (index : Nat) : Except ColumnError (Cell k) := c.container.get index

/-- The row at an index as a scalar. -/
def getScalar (c : Column k) (index : Nat) : Except ColumnError Scalar :=
  return Scalar.ofCell (← c.get index)

/-- Work on the container and keep the name. -/
def onContainer {α : Type} (m : Edit (Container k) α) : Edit (Column k) α :=
  Edit.within (fun | ⟨name, container⟩ => (container, fun container => ⟨name, container⟩)) m

/-- Give the column another name. -/
def rename (name : String) : Edit (Column k) Unit := Edit.updates fun c => { c with name }

/-- Replace the row at an index. -/
def set (index : Nat) (cell : Cell k) : Edit (Column k) Unit :=
  onContainer (Container.set index cell)

/-- Add a row at the end. -/
def append (cell : Cell k) : Edit (Column k) Unit := onContainer (Container.append cell)

/-- Add `count` equal rows at the end. -/
def appendMany (cell : Cell k) (count : Nat) : Edit (Column k) Unit :=
  onContainer (Container.appendMany cell count)

/-- Bring the column to a number of rows. -/
def resize (newLen : Nat) : Edit (Column k) Unit := onContainer (Container.resize newLen)

/-- Replace the row at an index by a scalar, whose type is checked first. -/
def setScalar (index : Nat) (s : Scalar) : Edit (Column k) Unit := do
  set index (← s.expectCell k)

/-- Add a scalar as a row. -/
def appendScalar (s : Scalar) : Edit (Column k) Unit := do
  append (← s.expectCell k)

/-- The rows that an index map names, in the order of the map or, inverted, from its end on. -/
def select (c : Column k) (map : Array Nat) (invert : Bool) : Traced (Column k) :=
  return ⟨c.name, ← c.container.select map invert⟩

/-- The rows that a column of indices names. -/
def selectByColumn (c : Column k) (map : Column .uint64) (invert : Bool) : Traced (Column k) :=
  return ⟨c.name, ← c.container.selectByColumn map.container invert⟩

/-- A column of other rows under the name and options of this one. -/
def rebuild {l : Kind} (c : Column k) (rows : List (Cell l)) : Traced (Column l) :=
  ofRows c.name rows c.options

end Column

end Columnar
