import Columnar.Container.Basic
/-!
# Agreement of chunk layouts

An operator on two containers pairs their chunks by number and their rows by offset. That is right
only if both have as many rows and are cut into chunks alike.
-/

namespace Columnar.Container

variable {k : Kind}

/-- The number of rows in the chunk with a number; none past the last chunk. -/
def rowsInChunk (c : Container k) (chunk : Nat) : Nat :=
  match c.chunks[chunk]? with
  | some chunk => chunk.len
  | none => 0

/-- The first chunk in which two containers have different numbers of rows. -/
def firstDifference? (left right : Container k) : Option Nat :=
  (List.range (max left.chunks.size right.chunks.size)).find? fun chunk =>
    left.rowsInChunk chunk != right.rowsInChunk chunk

/-- Refuse two containers that cannot be paired chunk by chunk. A difference in length is found
before one in layout. -/
def checkLayout (left right : Container k) : Except ColumnError Unit :=
  if left.len != right.len then .error (.lengthMismatch left.len right.len)
  else match firstDifference? left right with
    | some chunk =>
      .error (.layoutMismatch chunk (left.rowsInChunk chunk) (right.rowsInChunk chunk))
    | none => .ok ()

/-- The chunks of two containers, paired. -/
def chunkPairs (left right : Container k) : List (Chunk k × Chunk k) :=
  left.chunks.toList.zip right.chunks.toList

end Columnar.Container
