import Columnar.Buffer
import Columnar.Mask
/-!
# Chunks

A chunk is the unit of allocation of a column: a buffer of stored values and a mask that says which
of them are rows with a value. Beneath a null the kind's zero is stored, though operators may leave
something else there.
-/

namespace Columnar

/-- Stored values together with their validity. -/
structure Chunk (k : Kind) where
  /-- What is stored, beneath nulls as well. -/
  values : Buffer k
  /-- Which rows hold a value. -/
  validity : Mask

namespace Chunk

variable {k : Kind}

/-- A chunk without rows that may grow up to a ceiling. -/
def empty (ceiling : Nat) : Chunk k := ⟨{ ceiling }, .empty⟩

/-- The number of rows. -/
def len (c : Chunk k) : Nat := c.values.size

/-- Whether there are no rows. -/
def isEmpty (c : Chunk k) : Bool := c.len == 0

/-- The row at an offset below the length. -/
def row (c : Chunk k) (offset : Nat) : Cell k :=
  if c.validity.isValid offset then some (c.values.values.getD offset k.zero) else none

/-- The row at an offset, which has to be below the length. -/
def get (c : Chunk k) (offset : Nat) : Except ColumnError (Cell k) :=
  if offset < c.len then .ok (c.row offset) else .error (.indexOutOfRange offset c.len)

/-- The stored values, each with its flag. -/
def slots (c : Chunk k) : List (k.Value × Bool) :=
  c.values.values.toList.zip ((List.range c.len).map c.validity.isValid)

/-- The rows of the chunk, in order. -/
def rows (c : Chunk k) : List (Cell k) :=
  c.slots.map fun (v, valid) => if valid then some v else none

/-- The number of nulls, counted in the mask. -/
def nullCount (c : Chunk k) : Nat := c.validity.nullCount

/-- Whether two chunks have equal rows. What is stored beneath nulls does not matter. -/
def equals (a b : Chunk k) : Bool :=
  a.len == b.len && (a.rows.zip b.rows).all fun (x, y) => Cell.equals x y

/-- Work on the buffer and leave the mask as it is. -/
def onValues {α : Type} (m : Edit (Buffer k) α) : Edit (Chunk k) α :=
  Edit.within (fun | ⟨values, validity⟩ => (values, fun values => ⟨values, validity⟩)) m

/-- Change the mask and leave the buffer as it is. -/
def updateValidity (f : Mask → Mask) : Edit (Chunk k) Unit :=
  Edit.updates fun | ⟨values, validity⟩ => ⟨values, f validity⟩

/-- Add a row. The buffer goes first, so that the mask is unchanged if the chunk is full. -/
def push (cell : Cell k) : Edit (Chunk k) Unit := do
  onValues (Buffer.append cell.stored)
  updateValidity (·.push cell.isSome)

/-- Add `count` equal rows, the buffer first. -/
def pushMany (cell : Cell k) (count : Nat) : Edit (Chunk k) Unit := do
  onValues (Buffer.appendFill cell.stored count)
  updateValidity (·.extend cell.isSome count)

/-- Replace the row at an offset, the buffer first. -/
def set (offset : Nat) (cell : Cell k) : Edit (Chunk k) Unit := do
  onValues (Buffer.set offset cell.stored)
  updateValidity (·.set offset cell.isSome)

/-- Drop the rows from an offset on. -/
def truncate (c : Chunk k) (len : Nat) : Chunk k :=
  ⟨c.values.truncate len, c.validity.truncate len⟩

/-- Replace the stored values by as many others. -/
def withValues (c : Chunk k) (values : Array k.Value) : Chunk k :=
  { c with values := { c.values with values } }

/-- A chunk with the same contents and an allocation just large enough for them. -/
def copy (c : Chunk k) : Chunk k := { c with values := c.values.copy }

end Chunk

end Columnar
