import Columnar.Arrow.Array
import Columnar.Column.Basic
/-!
# Exchanging columns as arrays

A column is exported as one array per chunk, with the values as they are stored, and announced as a
field. An array is imported if its type is that of the kind.
-/

namespace Columnar

/-- The description of a column for a consumer of its arrays. -/
structure ArrowField where
  /-- The name of the column. -/
  name : String
  /-- The type of its arrays. -/
  type : ArrowType
  /-- Whether rows may be null. -/
  nullable : Bool
deriving DecidableEq, Repr

namespace Container

variable {k : Kind}

/-- One array per chunk. -/
def toArrow (c : Container k) : List ArrowArray :=
  c.chunks.toList.map fun chunk =>
    ArrowArray.ofStored k chunk.values.values.toList chunk.validity

/-- The container of the rows of an array. -/
def ofArrow (a : ArrowArray) (options : Options) : Traced (Container k) := do
  if a.type != k.arrowType then throw (.typeMismatch k a.type.foundType)
  ofRows (a.cells k) options

end Container

namespace Column

variable {k : Kind}

/-- The description of a column; every row may be null. -/
def arrowField (c : Column k) : ArrowField := ⟨c.name, k.arrowType, true⟩

/-- One array per chunk. -/
def toArrow (c : Column k) : List ArrowArray := c.container.toArrow

/-- The column of the rows of an array. -/
def ofArrow (name : String) (a : ArrowArray) (options : Options := {}) : Traced (Column k) :=
  return ⟨name, ← Container.ofArrow a options⟩

end Column

end Columnar
