/-!
# Kinds of column elements

A column stores elements of one kind. There are thirteen kinds: booleans, the eight fixed-width
integers, the two binary floating-point formats, fixed-point decimals and UTF-16 code units. This
file holds the kinds themselves, their names and widths, and the narrower list of types that a
reader walking a column row by row is told about.
-/

namespace Columnar

/-- The element kinds a column can have. -/
inductive Kind where
  | bool
  | int8
  | uint8
  | int16
  | uint16
  | int32
  | uint32
  | int64
  | uint64
  | float32
  | float64
  | decimal
  | char16
deriving DecidableEq, Repr, Inhabited

/-- The types declared to a row-by-row reader: decimals are announced as 64-bit floats and code
units as 16-bit unsigned integers. -/
inductive ExternalType where
  | bool
  | int8
  | uint8
  | int16
  | uint16
  | int32
  | uint32
  | int64
  | uint64
  | float32
  | float64
deriving DecidableEq, Repr, Inhabited

namespace Kind

/-- Every kind once, in the order in which kinds are listed. -/
def all : List Kind :=
  [.bool, .int8, .uint8, .int16, .uint16, .int32, .uint32, .int64, .uint64,
   .float32, .float64, .decimal, .char16]

/-- The name of a kind in messages. -/
def name : Kind → String
  | .bool => "bool"
  | .int8 => "i8"
  | .uint8 => "u8"
  | .int16 => "i16"
  | .uint16 => "u16"
  | .int32 => "i32"
  | .uint32 => "u32"
  | .int64 => "i64"
  | .uint64 => "u64"
  | .float32 => "f32"
  | .float64 => "f64"
  | .decimal => "decimal"
  | .char16 => "char16"

/-- The size of one stored element in bytes. -/
def width : Kind → Nat
  | .bool | .int8 | .uint8 => 1
  | .int16 | .uint16 | .char16 => 2
  | .int32 | .uint32 | .float32 => 4
  | .int64 | .uint64 | .float64 => 8
  | .decimal => 16

/-- The type a row-by-row reader is told a column of this kind delivers. -/
def externalType : Kind → ExternalType
  | .bool => .bool
  | .int8 => .int8
  | .uint8 => .uint8
  | .int16 => .int16
  | .uint16 | .char16 => .uint16
  | .int32 => .int32
  | .uint32 => .uint32
  | .int64 => .int64
  | .uint64 => .uint64
  | .float32 => .float32
  | .float64 | .decimal => .float64

theorem mem_all (k : Kind) : k ∈ all := by
  cases k <;> decide

theorem width_pos (k : Kind) : 0 < k.width := by
  cases k <;> decide

end Kind

namespace ExternalType

/-- The name under which an external type is announced. -/
def name : ExternalType → String
  | .bool => "Boolean"
  | .int8 => "Int8"
  | .uint8 => "UInt8"
  | .int16 => "Int16"
  | .uint16 => "UInt16"
  | .int32 => "Int32"
  | .uint32 => "UInt32"
  | .int64 => "Int64"
  | .uint64 => "UInt64"
  | .float32 => "Float32"
  | .float64 => "Float64"

end ExternalType

end Columnar
