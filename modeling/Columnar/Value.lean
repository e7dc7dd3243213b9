import Columnar.Element
import Columnar.Error
import Columnar.LittleEndian
/-!
# Values of a kind

Each kind names an element type, and each of these types is an `Element`. This file ties the two
together: `k.Value` is the type of the values of kind `k`, a `Cell k` is such a value or a null,
and the operators are given their meaning on single values. The operators on whole columns are
defined elsewhere, over chunks; that they agree with the ones here row by row is their main law.
-/

namespace Columnar

/-- The type of the values of a kind. -/
@[reducible] def Kind.Value : Kind → Type
  | .bool => Bool
  | .int8 => Int8
  | .uint8 => UInt8
  | .int16 => Int16
  | .uint16 => UInt16
  | .int32 => Int32
  | .uint32 => UInt32
  | .int64 => Int64
  | .uint64 => UInt64
  | .float32 => Ieee.binary32.Word
  | .float64 => Ieee.binary64.Word
  | .decimal => Decimal
  | .char16 => Char16

/-- Every kind has an element type. -/
instance Kind.element : (k : Kind) → Element k.Value
  | .bool => inferInstanceAs (Element Bool)
  | .int8 => inferInstanceAs (Element Int8)
  | .uint8 => inferInstanceAs (Element UInt8)
  | .int16 => inferInstanceAs (Element Int16)
  | .uint16 => inferInstanceAs (Element UInt16)
  | .int32 => inferInstanceAs (Element Int32)
  | .uint32 => inferInstanceAs (Element UInt32)
  | .int64 => inferInstanceAs (Element Int64)
  | .uint64 => inferInstanceAs (Element UInt64)
  | .float32 => inferInstanceAs (Element Ieee.binary32.Word)
  | .float64 => inferInstanceAs (Element Ieee.binary64.Word)
  | .decimal => inferInstanceAs (Element Decimal)
  | .char16 => inferInstanceAs (Element Char16)

namespace Kind

/-- The value stored beneath a null. -/
def zero (k : Kind) : k.Value := Element.zero

/-- The neutral element of multiplication; `true` for booleans. -/
def one (k : Kind) : k.Value := Element.one

/-- How operators act on two values of a kind. -/
def arithmetic (k : Kind) : Arithmetic k.Value := k.element.arithmetic

/-- The operator families of a kind are those its arithmetic provides. -/
theorem support_arithmetic (k : Kind) : k.arithmetic.support = k.support := by
  cases k <;> rfl

/-- The values of a kind are inhabited by its zero. -/
instance (k : Kind) : Inhabited k.Value := ⟨k.zero⟩

namespace Value

variable {k : Kind}

/-- The integer by which values are ordered and grouped. -/
def key (v : k.Value) : Int := k.element.key v

/-- Whether a value is unordered to every value. -/
def isUnordered (v : k.Value) : Bool := k.element.isUnordered v

/-- How two values compare, unless one of them is unordered. -/
def compare? (a b : k.Value) : Option Ordering :=
  if isUnordered a || isUnordered b then none else some (compare (key a) (key b))

/-- Whether two values are equal; an unordered value equals nothing. -/
def equals (a b : k.Value) : Bool := Comparison.equal.holds (compare? a b)

/-- Whether a value equals the one stored beneath nulls. -/
def isZero (v : k.Value) : Bool := equals v k.zero

/-- The position of two values in the order that groups and sorts them, in which unordered values
come last and are alike. -/
def order (a b : k.Value) : Ordering := compare (key a) (key b)

/-- The bits by which a distinct count tells values apart. -/
def hashBits (v : k.Value) : UInt64 := k.element.hashBits v

/-- The value as a floating-point number. -/
def toFloat (v : k.Value) : Float := k.element.toFloat v

/-- The bytes of a value in memory. -/
def toBytes (v : k.Value) : List UInt8 := LittleEndian.encode k.width (k.element.toWord v)

/-- The value of the bytes in memory. -/
def ofBytes (k : Kind) (bytes : List UInt8) : k.Value :=
  k.element.ofWord (LittleEndian.decode bytes)

/-- The text of a value. -/
def text (v : k.Value) : String := k.element.text v

end Value

end Kind

/-- A row of a column: a value or a null. -/
abbrev Cell (k : Kind) : Type := Option k.Value

namespace Cell

variable {k : Kind}

/-- Whether two rows are equal. Nulls are equal to each other and to no value. -/
def equals : Cell k → Cell k → Bool
  | some a, some b => Kind.Value.equals a b
  | none, none => true
  | _, _ => false

/-- The value stored for a row: that of a null is the kind's zero. -/
def stored (c : Cell k) : k.Value := c.getD k.zero

end Cell

namespace Comparison

/-- The verdict of a comparison on two values. -/
def evaluate {k : Kind} (op : Comparison) (a b : k.Value) : Bool :=
  op.holds (Kind.Value.compare? a b)

end Comparison

namespace BinaryOp

/-- A binary operator on two values. -/
def onValues {k : Kind} (op : BinaryOp) (a b : k.Value) : Except ColumnError k.Value :=
  match k.arithmetic, op with
  | .wrapping ops, .arithmetic op =>
    if op.isDivision && Kind.Value.isZero b then .error (.divideByZero k)
    else .ok (ops.arithmetic op a b)
  | .wrapping ops, .bitwise op => .ok (ops.bitwise op a b)
  | .rounding ops, .arithmetic op => .ok (ops op a b)
  | .checked ops, .arithmetic op =>
    if op.isDivision && Kind.Value.isZero b then .error (.divideByZero k)
    else match ops op a b with
      | some c => .ok c
      | none => .error (.overflow k (.arithmetic op))
  | .logical ops, .bitwise op => .ok (ops op a b)
  | _, op => .error (.unsupportedOperation k (.binary op))

end BinaryOp

namespace ShiftOp

/-- A shift of one value. -/
def onValue {k : Kind} (op : ShiftOp) (v : k.Value) (amount : Int32) :
    Except ColumnError k.Value :=
  match k.arithmetic with
  | .wrapping ops => .ok (ops.shift op v (ops.places amount))
  | _ => .error (.unsupportedOperation k (.shift op))

end ShiftOp

end Columnar
