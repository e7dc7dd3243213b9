import Columnar.Container.Basic
/-!
# Building containers

A container is built in two phases: first rows are pushed into chunks without any count of nulls,
then the count is taken from the masks once. Beginning a new chunk is not reported here, as it is
when a finished container grows.
-/

namespace Columnar

/-- A container under construction. -/
structure Builder (k : Kind) where
  /-- The chunks so far, all of them full but the last. -/
  chunks : Array (Chunk k) := #[]
  /-- The number of rows so far. -/
  len : Nat := 0
  /-- The options of the container to be. -/
  options : Options

namespace Builder

variable {k : Kind}

/-- The number of rows of a full chunk. -/
def chunkCapacity (b : Builder k) : Nat := b.options.chunkCapacity k

/-- Whether the last chunk has room for another row. -/
def hasRoom (b : Builder k) : Bool := b.chunks.back?.any (·.len < b.chunkCapacity)

/-- Begin a new chunk if the last one is full. -/
def openChunk (b : Builder k) : Builder k :=
  if b.hasRoom then b else { b with chunks := b.chunks.push (.empty b.chunkCapacity) }

/-- Take the last chunk out, and keep the way to put it back. -/
def splitLast : Builder k → Chunk k × (Chunk k → Builder k)
  | ⟨chunks, len, options⟩ =>
    let last := chunks.back?.getD (.empty (options.chunkCapacity k))
    let others := chunks.pop
    (last, fun chunk => ⟨others.push chunk, len, options⟩)

/-- Add a row to the last chunk, or to a new one if that is full. -/
def push (cell : Cell k) : Edit (Builder k) Unit := do
  Edit.updates openChunk
  Edit.within splitLast (Chunk.push cell)
  Edit.updates fun b => { b with len := b.len + 1 }

/-- Close the container and count its nulls. -/
def finish (b : Builder k) : Container k :=
  Container.recountNulls ⟨b.chunks, b.len, 0, b.options⟩

/-- Build a container by an operation on a builder. -/
def build (options : Options) (m : Edit (Builder k) Unit) : Traced (Container k) := do
  return (← m.runOn { options }).finish

end Builder

namespace Container

variable {k : Kind}

/-- The container of a list of rows. -/
def ofRows (rows : List (Cell k)) (options : Options := {}) : Traced (Container k) :=
  Builder.build options (Edit.forEach rows Builder.push)

/-- The container of a list of values, none of them null. -/
def ofValues (values : List k.Value) (options : Options := {}) : Traced (Container k) :=
  ofRows (values.map some) options

/-- Import `len` rows from little-endian bytes and, if some are null, a packed bitmap that has a
bit set for every row with a value. -/
def ofRawBytes (values : Array UInt8) (validity : Option (Array UInt8)) (len : Nat)
    (options : Options) : Traced (Container k) := do
  let needed := min (len * k.width) (UInt64.size - 1)
  if values.size < needed then throw (.bufferTooShort needed values.size)
  if let some bitmap := validity then
    let needed := Mask.byteCount len
    if bitmap.size < needed then throw (.bufferTooShort needed bitmap.size)
  let isValid (row : Nat) : Bool :=
    match validity with
    | none => true
    | some bitmap => (Mask.mk bitmap len).isValid row
  let bytes (row : Nat) : List UInt8 :=
    (values.extract (row * k.width) ((row + 1) * k.width)).toList
  ofRows ((List.range len).map fun row =>
    if isValid row then some (Kind.Value.ofBytes k (bytes row)) else none) options

end Container

end Columnar
