import Columnar.Edit
import Columnar.Value
/-!
# Chunk buffers

A buffer holds the stored values of one chunk. It grows by doubling, or straight to the size that
is needed when that is more, and never beyond its ceiling; a request that would need more is
refused and changes nothing. The allocation is part of the state, because its growth is reported.
-/

namespace Columnar

/-- A growable sequence of values with a hard ceiling. -/
structure Buffer (k : Kind) where
  /-- The stored values. -/
  values : Array k.Value := #[]
  /-- The number of values that the allocation has room for. -/
  capacity : Nat := 0
  /-- The number of values that the buffer may ever hold. -/
  ceiling : Nat

namespace Buffer

variable {k : Kind}

/-- The number of stored values. -/
def size (b : Buffer k) : Nat := b.values.size

/-- The number of values that may still be added. -/
def remaining (b : Buffer k) : Nat := b.ceiling - b.size

/-- The number of bytes that the stored values take. -/
def byteSize (b : Buffer k) : Nat := b.size * k.width

/-- The stored values as bytes, one after the other. -/
def bytes (b : Buffer k) : List UInt8 := b.values.toList.flatMap Kind.Value.toBytes

/-- The refusal of `additional` more values. The count it names does not go past the largest
64-bit number. -/
def exceeded (b : Buffer k) (additional : Nat) : ColumnError :=
  .capacityExceeded (min (b.size + additional) (UInt64.size - 1)) b.ceiling

/-- Make the allocation large enough for `needed` values. -/
def growFor (needed : Nat) : Edit (Buffer k) Unit := fun b =>
  if needed ≤ b.capacity then ⟨.ok (), b, #[]⟩
  else
    let target := min (max needed (2 * b.capacity)) b.ceiling
    ⟨.ok (), { b with capacity := target }, #[.bufferGrew k b.capacity target]⟩

/-- Make room for `additional` more values, so that adding them does not grow the buffer. -/
def ensureRoom (additional : Nat) : Edit (Buffer k) Unit := fun b =>
  let needed := b.size + additional
  if needed ≤ b.ceiling then growFor needed b else Edit.fail (b.exceeded additional) b

/-- Add a value at the end, unless the ceiling is reached. -/
def append (v : k.Value) : Edit (Buffer k) Unit := do
  Edit.checks fun b => if b.size = b.ceiling then .error (b.exceeded 1) else .ok ()
  let needed ← Edit.reads fun b => b.size + 1
  growFor needed
  Edit.updates fun b => { b with values := b.values.push v }

/-- Add `count` copies of a value. -/
def appendFill (v : k.Value) (count : Nat) : Edit (Buffer k) Unit := do
  ensureRoom count
  Edit.updates fun b => { b with values := b.values ++ Array.replicate count v }

/-- The value at an index. -/
def get (b : Buffer k) (index : Nat) : Except ColumnError k.Value :=
  if h : index < b.values.size then .ok b.values[index]
  else .error (.indexOutOfRange index b.size)

/-- Replace the value at an index. -/
def set (index : Nat) (v : k.Value) : Edit (Buffer k) Unit := fun b =>
  if h : index < b.values.size then ⟨.ok (), { b with values := b.values.set index v h }, #[]⟩
  else ⟨.error (.indexOutOfRange index b.size), b, #[]⟩

/-- Drop the values from an index on. The allocation stays. -/
def truncate (b : Buffer k) (len : Nat) : Buffer k :=
  { b with values := b.values.take len }

/-- A buffer with the same values and an allocation just large enough for them. -/
def copy (b : Buffer k) : Buffer k := { b with capacity := b.size }

end Buffer

end Columnar
