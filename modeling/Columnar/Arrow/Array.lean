import Columnar.Arrow.Type
import Columnar.Mask
import Columnar.Value
/-!
# Arrays of the interchange format

An array is a range of a buffer of values, with an optional validity bitmap over the same buffer.
Values are little-endian words one after the other, except that booleans are packed into bits.
Without a bitmap, every row holds a value.
-/

namespace Columnar

/-- An array of one type. -/
structure ArrowArray where
  /-- How the data are to be read. -/
  type : ArrowType
  /-- The number of rows. -/
  len : Nat
  /-- The position of the first row in the buffers. -/
  offset : Nat := 0
  /-- The packed flags of the rows that hold a value, if there are nulls. -/
  validity : Option (Array UInt8) := none
  /-- The values as bytes, or as bits if they are booleans. -/
  data : Array UInt8

namespace ArrowArray

/-- The buffer that holds a list of values. -/
def pack : (k : Kind) → List k.Value → Array UInt8
  | .bool, values => (Mask.ofBits values).bytes
  | _, values => (values.flatMap Kind.Value.toBytes).toArray

/-- The value at a position of a buffer. -/
def unpack : (k : Kind) → Array UInt8 → Nat → k.Value
  | .bool, data, position => (Mask.mk data (8 * data.size)).isValid position
  | k, data, position =>
    Kind.Value.ofBytes k (data.extract (position * k.width) ((position + 1) * k.width)).toList

/-- The array of a list of stored values. A bitmap is kept only if some row is null. -/
def ofStored (k : Kind) (values : List k.Value) (validity : Mask) : ArrowArray where
  type := k.arrowType
  len := values.length
  validity := if 0 < validity.nullCount then some validity.bytes else none
  data := pack k values

/-- The array of a list of rows, with zeros beneath the nulls. -/
def ofCells (k : Kind) (cells : List (Cell k)) : ArrowArray :=
  ofStored k (cells.map Cell.stored) (.ofBits (cells.map Option.isSome))

/-- The `count` rows from an offset on. -/
def slice (a : ArrowArray) (offset count : Nat) : ArrowArray :=
  { a with offset := a.offset + offset, len := count }

/-- Whether row `i` holds a value. -/
def isValid (a : ArrowArray) (i : Nat) : Bool :=
  match a.validity with
  | some bytes => (Mask.mk bytes (8 * bytes.size)).isValid (a.offset + i)
  | none => true

/-- The value stored for row `i`, read as one of kind `k`. -/
def stored (a : ArrowArray) (k : Kind) (i : Nat) : k.Value := unpack k a.data (a.offset + i)

/-- The number of rows without a value. -/
def nullCount (a : ArrowArray) : Nat := (List.range a.len).countP fun i => !a.isValid i

/-- The rows, read as ones of kind `k`. -/
def cells (a : ArrowArray) (k : Kind) : List (Cell k) :=
  (List.range a.len).map fun i => if a.isValid i then some (a.stored k i) else none

end ArrowArray

end Columnar
