import Columnar.Column.Basic
/-!
# Row readers

A reader walks a column one row at a time: it stands at a position, which may be moved freely, and
reads the row there. Consumers that cannot handle every kind are told the external type.
-/

namespace Columnar

/-- Anything that stands at a row. -/
class Cursor (γ : Type) where
  /-- The number of the row. -/
  position : γ → Nat

/-- A fixed position. -/
instance : Cursor Nat := ⟨id⟩

/-- A column together with a cursor into it. -/
structure Reader (k : Kind) (γ : Type) where
  /-- The column that is read. -/
  column : Column k
  /-- Where it is read. -/
  cursor : γ

namespace Reader

variable {k : Kind} {γ : Type} [Cursor γ]

/-- The type that is declared to a consumer. -/
def externalType (_ : Reader k γ) : ExternalType := k.externalType

/-- The reader with its cursor somewhere else. -/
def moveTo (r : Reader k γ) (cursor : γ) : Reader k γ := { r with cursor }

/-- The row at the cursor. -/
def get (r : Reader k γ) : Except ColumnError (Cell k) := r.column.get (Cursor.position r.cursor)

/-- The row at the cursor, where a null reads as the kind's zero. -/
def getOrZero (r : Reader k γ) : Except ColumnError k.Value := return (← r.get).stored

/-- The row at the cursor as a scalar. -/
def getScalar (r : Reader k γ) : Except ColumnError Scalar :=
  r.column.getScalar (Cursor.position r.cursor)

end Reader

end Columnar
