import Columnar.Container.Builder
/-!
# Changing containers in place

Appending, overwriting and resizing. When a container moves on to a further chunk, that is
reported, with the number of the chunk and of the row that begins it; appending many equal rows
grows each chunk once.
-/

namespace Columnar.Container

variable {k : Kind}

/-- Whether the last chunk has room for another row. -/
def hasRoom (c : Container k) : Bool := c.chunks.back?.any (·.len < c.chunkCapacity)

/-- Begin a new chunk if the last one is full. The first chunk is begun without a report. -/
def openChunk : Edit (Container k) Unit := fun c =>
  if c.hasRoom then ⟨.ok (), c, #[]⟩
  else
    let events := if c.chunks.isEmpty then #[] else #[.rolledOver k c.chunks.size c.len]
    ⟨.ok (), { c with chunks := c.chunks.push (.empty c.chunkCapacity) }, events⟩

/-- Take the last chunk out, and keep the way to put it back. -/
def splitLast : Container k → Chunk k × (Chunk k → Container k)
  | ⟨chunks, len, nullCount, options⟩ =>
    let last := chunks.back?.getD (.empty (options.chunkCapacity k))
    let others := chunks.pop
    (last, fun chunk => ⟨others.push chunk, len, nullCount, options⟩)

/-- Take the chunk with a number out, and keep the way to put it back. -/
def splitAt (chunk : Nat) : Container k → Chunk k × (Chunk k → Container k)
  | ⟨chunks, len, nullCount, options⟩ =>
    let hole : Chunk k := .empty (options.chunkCapacity k)
    let part := chunks.getD chunk hole
    let others := chunks.setIfInBounds chunk hole
    (part, fun c => ⟨others.setIfInBounds chunk c, len, nullCount, options⟩)

/-- Count rows that were added to the chunks. -/
def countRows (cell : Cell k) (count : Nat) : Edit (Container k) Unit :=
  Edit.updates fun c =>
    { c with
      len := c.len + count
      nullCount := if cell.isNone then c.nullCount + count else c.nullCount }

/-- Add a row at the end. -/
def append (cell : Cell k) : Edit (Container k) Unit := do
  openChunk
  Edit.within splitLast (Chunk.push cell)
  countRows cell 1

/-- Add equal rows, `remaining` of them or as many as one chunk takes, and return how many these
were. -/
def appendRun (cell : Cell k) (remaining : Nat) : Edit (Container k) Nat := do
  openChunk
  let room ← Edit.reads fun c => (c.chunkAt (c.chunks.size - 1)).values.remaining
  let count := min remaining room
  Edit.within splitLast (Chunk.pushMany cell count)
  countRows cell count
  return count

/-- The loop behind `appendMany`: the events so far are carried along. -/
def appendManyFrom (cell : Cell k) (remaining : Nat) (c : Container k) (events : Array Event) :
    Outcome (Container k) Unit :=
  if remaining = 0 then ⟨.ok (), c, events⟩
  else
    match appendRun cell remaining c with
    | ⟨.ok count, c, more⟩ =>
      if count = 0 then ⟨.ok (), c, events ++ more⟩
      else appendManyFrom cell (remaining - count) c (events ++ more)
    | ⟨.error e, c, more⟩ => ⟨.error e, c, events ++ more⟩
termination_by remaining
decreasing_by omega

/-- Add `count` equal rows, chunk by chunk. -/
def appendMany (cell : Cell k) (count : Nat) : Edit (Container k) Unit := fun c =>
  appendManyFrom cell count c #[]

/-- A container of `len` nulls. -/
def ofLen (len : Nat) (options : Options) : Traced (Container k) :=
  (appendMany none len).runOn (empty options)

/-- Replace the row at an index, and keep the number of nulls right. -/
def set (index : Nat) (cell : Cell k) : Edit (Container k) Unit := do
  let (chunk, offset) ← Edit.checks fun c => c.locate index
  let wasValid ← Edit.reads fun c => (c.chunkAt chunk).validity.isValid offset
  Edit.within (splitAt chunk) (Chunk.set offset cell)
  Edit.updates fun c =>
    { c with
      nullCount :=
        match wasValid, cell.isSome with
        | true, false => c.nullCount + 1
        | false, true => c.nullCount - 1
        | _, _ => c.nullCount }

/-- The number of chunks that hold the first `len` rows. -/
def chunkCount (c : Container k) (len : Nat) : Nat :=
  (len + c.chunkCapacity - 1) / c.chunkCapacity

/-- The number of nulls from row `len` on. Only the chunks from the one that holds the last row to
be kept on are looked at. -/
def nullsFrom (c : Container k) (len : Nat) : Nat :=
  let first := c.chunkCount len - 1
  (c.chunks.toList.zipIdx.drop first).foldl (fun n (chunk, i) =>
    let start := min (len - i * c.chunkCapacity) chunk.len
    n + chunk.validity.nullCountIn start chunk.len) 0

/-- Drop the rows from `len` on. -/
def truncate (c : Container k) (len : Nat) : Container k :=
  let keep := c.chunkCount len
  let removed := c.nullsFrom len
  let tail := len - (keep - 1) * c.chunkCapacity
  let chunks := c.chunks.take keep
  { c with
    chunks := chunks.modify (chunks.size - 1) (·.truncate tail)
    len
    nullCount := c.nullCount - removed }

/-- Bring a container to a number of rows, by adding nulls or dropping rows at the end. -/
def resize (newLen : Nat) : Edit (Container k) Unit := fun c =>
  if c.len ≤ newLen then appendMany none (newLen - c.len) c
  else ⟨.ok (), c.truncate newLen, #[]⟩

/-- Clamp the values of the rows between two bounds. -/
def clip (lower upper : k.Value) (c : Container k) : Container k :=
  let clamp (v : k.Value) : k.Value :=
    if Comparison.less.evaluate v lower then lower
    else if Comparison.greater.evaluate v upper then upper
    else v
  { c with
    chunks := c.chunks.map fun chunk =>
      chunk.withValues (chunk.values.values.mapIdx fun i v =>
        if chunk.validity.isValid i then clamp v else v) }

/-- Give every null of a chunk a value. -/
def fillNullsInChunk (v : k.Value) (chunk : Chunk k) : Chunk k :=
  let values := chunk.values.values.mapIdx fun i old =>
    if chunk.validity.isValid i then old else v
  let validity := (List.range chunk.len).foldl (fun m i => m.set i true) chunk.validity
  { chunk.withValues values with validity }

/-- Give every null a value. -/
def fillNulls (v : k.Value) (c : Container k) : Container k :=
  if c.nullCount = 0 then c
  else recountNulls { c with chunks := c.chunks.map (fillNullsInChunk v) }

/-- Replace every row by its image under a function, one row after the other. -/
def applyInPlace (f : Cell k → Cell k) : Edit (Container k) Unit := do
  let len ← Edit.reads Container.len
  Edit.forEach (List.range len) fun index => do
    let cell ← Edit.checks fun c => c.get index
    set index (f cell)

end Columnar.Container
