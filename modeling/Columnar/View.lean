import Columnar.Container.Basic
/-!
# Views of row ranges

A view describes a range of rows of one chunk in the form in which columnar consumers take it: the
whole value buffer and validity bitmap of the chunk, an offset into both, and the number of rows
and of nulls in the range.
-/

namespace Columnar

/-- A range of the rows of one chunk. -/
structure View (k : Kind) where
  /-- The stored values of the whole chunk. -/
  values : Array k.Value := #[]
  /-- The validity bytes of the whole chunk; the view without rows has none. -/
  validity : Option (Array UInt8) := none
  /-- The position of the first row of the range in the chunk. -/
  offset : Nat := 0
  /-- The number of rows of the range. -/
  len : Nat := 0
  /-- The number of nulls in the range. -/
  nullCount : Nat := 0

namespace View

variable {k : Kind}

/-- The view without rows, which refers to no chunk. -/
def empty : View k := {}

/-- Whether the range has no rows. -/
def isEmpty (v : View k) : Bool := v.len == 0

/-- The stored values of the whole chunk as bytes. -/
def valueBytes (v : View k) : List UInt8 := v.values.toList.flatMap Kind.Value.toBytes

/-- Whether row `i` of the range holds a value. -/
def isValid (v : View k) (i : Nat) : Bool :=
  match v.validity with
  | some bytes => (Mask.mk bytes (8 * bytes.size)).isValid (v.offset + i)
  | none => false

/-- Row `i` of the range; past its end, a null. -/
def get (v : View k) (i : Nat) : Cell k :=
  if i < v.len && v.isValid i then some (v.values.getD (v.offset + i) k.zero) else none

/-- The rows of the range, in order. -/
def rows (v : View k) : List (Cell k) := (List.range v.len).map v.get

/-- The view of `count` rows of a chunk from an offset on. -/
def ofChunk (c : Chunk k) (offset count : Nat) : View k where
  values := c.values.values
  validity := some c.validity.bytes
  offset
  len := count
  nullCount := c.validity.nullCountIn offset (offset + count)

end View

namespace Container

variable {k : Kind}

/-- The view of `count` rows from `start` on, which have to lie in one chunk. The last row asked
for is named when the range reaches past the end, up to the largest 64-bit number. -/
def exportRange (c : Container k) (start count : Nat) : Except ColumnError (View k) := do
  if count = 0 then return View.empty
  let stop := start + count
  if c.len < stop then throw (.indexOutOfRange (min (stop - 1) (UInt64.size - 1)) c.len)
  let chunk := c.chunkAt (← c.chunkIndexForRow start)
  let offset := start % c.chunkCapacity
  if chunk.len < offset + count then
    throw (.rangeSpansMultipleChunks start stop c.chunkCapacity)
  return View.ofChunk chunk offset count

/-- A view of each chunk, in row order. -/
def exportChunks (c : Container k) : List (View k) :=
  c.chunks.toList.map fun chunk => View.ofChunk chunk 0 chunk.len

end Container

end Columnar
