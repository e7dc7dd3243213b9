import Columnar.Chunk
import Columnar.Options
/-!
# Containers

A container holds the rows of a column, cut into chunks of a fixed capacity: row `i` is found in
chunk `i / capacity` at offset `i % capacity`, and every chunk but the last is full. The number of
nulls is kept along. `Container.rows` is the list of rows that the chunks stand for.

Equality of containers is that of their rows in the same chunks; neither the options nor what is
stored beneath nulls takes part.
-/

namespace Columnar

/-- The rows of a column. -/
structure Container (k : Kind) where
  /-- The chunks, all of them full but the last. -/
  chunks : Array (Chunk k) := #[]
  /-- The number of rows. -/
  len : Nat := 0
  /-- The number of nulls, kept along. -/
  nullCount : Nat := 0
  /-- The options that fix the capacity of the chunks. -/
  options : Options := {}

namespace Container

variable {k : Kind}

/-- A container without rows and chunks. -/
def empty (options : Options) : Container k := { options }

/-- Whether there are no rows. -/
def isEmpty (c : Container k) : Bool := c.len == 0

/-- The number of rows of a full chunk. -/
def chunkCapacity (c : Container k) : Nat := c.options.chunkCapacity k

/-- The chunk and the offset at which a row is found. -/
def locate (c : Container k) (index : Nat) : Except ColumnError (Nat × Nat) :=
  if index < c.len then .ok (index / c.chunkCapacity, index % c.chunkCapacity)
  else .error (.indexOutOfRange index c.len)

/-- The chunk with a number; past the last one, a chunk without rows. -/
def chunkAt (c : Container k) (chunk : Nat) : Chunk k :=
  c.chunks.getD chunk (.empty c.chunkCapacity)

/-- The row at an index. -/
def get (c : Container k) (index : Nat) : Except ColumnError (Cell k) := do
  let (chunk, offset) ← c.locate index
  return (c.chunkAt chunk).row offset

/-- Whether the row at an index holds a value. -/
def isValid (c : Container k) (index : Nat) : Except ColumnError Bool := do
  let (chunk, offset) ← c.locate index
  return (c.chunkAt chunk).validity.isValid offset

/-- The number of the chunk that holds a row. -/
def chunkIndexForRow (c : Container k) (index : Nat) : Except ColumnError Nat := do
  return (← c.locate index).1

/-- The number of rows from `start` to the end of its chunk; none in an empty container. -/
def maxContiguousRun (c : Container k) (start : Nat) : Except ColumnError Nat :=
  if c.isEmpty then .ok 0
  else do
    let (chunk, offset) ← c.locate start
    return (c.chunkAt chunk).len - offset

/-- The rows of the container: those of its chunks, one after the other. -/
def rows (c : Container k) : List (Cell k) := c.chunks.toList.flatMap Chunk.rows

/-- The values of the rows that have one, in order. -/
def values (c : Container k) : List k.Value := c.rows.filterMap id

/-- The number of nulls according to the masks. -/
def scannedNullCount (c : Container k) : Nat :=
  c.chunks.foldl (fun n chunk => n + chunk.nullCount) 0

/-- Set the number of nulls to what the masks say. -/
def recountNulls (c : Container k) : Container k := { c with nullCount := c.scannedNullCount }

/-- Whether two containers have equal rows in the same chunks. -/
def equals (a b : Container k) : Bool :=
  a.len == b.len && a.nullCount == b.nullCount && a.chunks.size == b.chunks.size &&
    (a.chunks.toList.zip b.chunks.toList).all fun (x, y) => x.equals y

/-- A container with the same contents and allocations just large enough for them. -/
def copy (c : Container k) : Container k := { c with chunks := c.chunks.map Chunk.copy }

end Container

end Columnar
