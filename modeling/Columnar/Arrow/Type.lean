import Columnar.Error
/-!
# Array types of the interchange format

Columns are exchanged with other programs as Arrow arrays. Each kind has an array type of its own,
except that code units travel as unsigned 16-bit integers; arrays may have further types, to which
no kind corresponds.
-/

namespace Columnar

/-- The type of an array. -/
inductive ArrowType where
  | boolean
  | int8
  | uint8
  | int16
  | uint16
  | int32
  | uint32
  | int64
  | uint64
  | float32
  | float64
  /-- Scaled 128-bit integers with a number of significant digits and of decimal places. -/
  | decimal128 (precision scale : Nat)
  /-- Days, as 32-bit integers. -/
  | date32
  | utf8
  /-- Nulls without any storage. -/
  | null
deriving DecidableEq, Repr, Inhabited

/-- The name of an array type in messages. -/
def ArrowType.name : ArrowType → String
  | .boolean => "Boolean"
  | .int8 => "Int8"
  | .uint8 => "UInt8"
  | .int16 => "Int16"
  | .uint16 => "UInt16"
  | .int32 => "Int32"
  | .uint32 => "UInt32"
  | .int64 => "Int64"
  | .uint64 => "UInt64"
  | .float32 => "Float32"
  | .float64 => "Float64"
  | .decimal128 precision scale => s!"Decimal128({precision}, {scale})"
  | .date32 => "Date32"
  | .utf8 => "Utf8"
  | .null => "Null"

/-- The array type of a kind. Decimals have 38 digits, ten of them after the point. -/
def Kind.arrowType : Kind → ArrowType
  | .bool => .boolean
  | .int8 => .int8
  | .uint8 => .uint8
  | .int16 => .int16
  | .uint16 | .char16 => .uint16
  | .int32 => .int32
  | .uint32 => .uint32
  | .int64 => .int64
  | .uint64 => .uint64
  | .float32 => .float32
  | .float64 => .float64
  | .decimal => .decimal128 38 10

/-- The first kind with an array type, or that there is none. -/
def ArrowType.foundType (t : ArrowType) : FoundType :=
  match Kind.all.find? fun k => k.arrowType = t with
  | some k => .kind k
  | none => .unsupportedArray

end Columnar
