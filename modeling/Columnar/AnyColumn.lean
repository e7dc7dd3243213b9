import Columnar.Column.Operators
import Columnar.Column.Stats
/-!
# Columns of any kind

A column together with its kind, for callers that learn the kind at run time only. Operators on two
columns need both to be of one kind, and a scalar operand has to be a value of the column's kind;
what is found instead is reported before anything else is looked at.
-/

namespace Columnar

/-- A column of some kind. -/
structure AnyColumn where
  /-- The kind, known at run time. -/
  kind : Kind
  /-- The column of that kind. -/
  column : Column kind

namespace AnyColumn

/-- A column of a kind, without rows. -/
def empty (kind : Kind) (name : String) (options : Options := {}) : AnyColumn :=
  ⟨kind, .empty name options⟩

/-- The column, if it is of a kind. -/
def as? (c : AnyColumn) (k : Kind) : Option (Column k) :=
  if h : c.kind = k then some (h ▸ c.column) else none

/-- The column, if it is of the kind that is needed. -/
def expect (c : AnyColumn) (k : Kind) : Except ColumnError (Column k) :=
  match c.as? k with
  | some column => .ok column
  | none => .error (.typeMismatch k (.kind c.kind))

/-- The name of the column. -/
def name (c : AnyColumn) : String := c.column.name

/-- The number of rows. -/
def len (c : AnyColumn) : Nat := c.column.len

/-- Whether there are no rows. -/
def isEmpty (c : AnyColumn) : Bool := c.len == 0

/-- The number of nulls, as it is kept along. -/
def nullCount (c : AnyColumn) : Nat := c.column.nullCount

/-- The type that is declared to a row-by-row reader. -/
def externalType (c : AnyColumn) : ExternalType := c.kind.externalType

/-- Whether two columns are of one kind and equal. -/
def equals (a b : AnyColumn) : Bool :=
  match b.as? a.kind with
  | some column => a.column.equals column
  | none => false

/-- Work on a column without changing its kind. -/
def onColumn {α : Type} (m : (k : Kind) → Edit (Column k) α) : Edit AnyColumn α :=
  fun ⟨kind, column⟩ =>
    match m kind column with
    | ⟨result, column, events⟩ => ⟨result, ⟨kind, column⟩, events⟩

/-- Give the column another name. -/
def rename (name : String) : Edit AnyColumn Unit := onColumn fun _ => Column.rename name

/-- The row at an index as a scalar. -/
def getScalar (c : AnyColumn) (index : Nat) : Except ColumnError Scalar :=
  c.column.getScalar index

/-- Replace the row at an index by a scalar of the kind, or by a null. -/
def setScalar (index : Nat) (s : Scalar) : Edit AnyColumn Unit :=
  onColumn fun _ => Column.setScalar index s

/-- Add a scalar of the kind, or a null, as a row. -/
def appendScalar (s : Scalar) : Edit AnyColumn Unit := onColumn fun _ => Column.appendScalar s

/-- The summary of the column. -/
def stats (c : AnyColumn) : Traced Stats := c.column.stats

/-- The rows that an index map names. -/
def select (c : AnyColumn) (map : Array Nat) (invert : Bool) : Traced AnyColumn :=
  return ⟨c.kind, ← c.column.select map invert⟩

/-- The column of a binary operator on this column and another, which has to be of its kind. -/
def binary (c : AnyColumn) (op : BinaryOp) (other : AnyColumn) : Traced AnyColumn := do
  let right ← other.expect c.kind
  return ⟨c.kind, ← c.column.binary op right⟩

/-- The column of a binary operator on this column and a scalar, which has to be a value of its kind
and stands on the left if reversed. -/
def binaryScalar (c : AnyColumn) (op : BinaryOp) (s : Scalar) (reverse : Bool) :
    Traced AnyColumn := do
  let v ← s.expect c.kind
  return ⟨c.kind, ← c.column.binaryScalar op v reverse⟩

/-- The column with its values shifted. -/
def shift (c : AnyColumn) (op : ShiftOp) (amount : Int32) : Traced AnyColumn :=
  return ⟨c.kind, ← c.column.shift op amount⟩

/-- The verdicts of a comparison with another column, which has to be of the kind. -/
def compare (c : AnyColumn) (op : Comparison) (other : AnyColumn) : Traced (Column .bool) := do
  let right ← other.expect c.kind
  c.column.compare op right

/-- The verdicts of a comparison with a scalar, which has to be a value of the kind. -/
def compareScalar (c : AnyColumn) (op : Comparison) (s : Scalar) : Traced (Column .bool) := do
  let v ← s.expect c.kind
  c.column.compareScalar op v

end AnyColumn

end Columnar
