import Columnar.Arithmetic
import Columnar.Char16
import Columnar.Decimal.Text
import Columnar.Ieee.Shortest
import Columnar.Ieee.Word
/-!
# Element types

What the library needs to know about the type of a column's elements: the value stored beneath a
null, an integer key that orders the values, the bits by which they are told apart, their word in
memory, their conversion to a floating-point number, their text and their arithmetic. The
thirteen instances follow.

Equality, comparison, grouping and sorting are all read off the key. Two values are unordered when
one of them is not a number; among keys, such a value comes last.
-/

namespace Columnar

/-- A type of column elements. -/
class Element (α : Type) where
  /-- The value stored beneath a null. -/
  zero : α
  /-- The neutral element of multiplication; `true` for booleans. -/
  one : α
  /-- How operators act on two values. -/
  arithmetic : Arithmetic α
  /-- The integer by which values are ordered and grouped. -/
  key : α → Int
  /-- Whether the value is unordered to every value, itself included. -/
  isUnordered : α → Bool
  /-- The bits by which a distinct count tells values apart. -/
  hashBits : α → UInt64
  /-- The value as a floating-point number, for means. -/
  toFloat : α → Float
  /-- The value as an unsigned word. -/
  toWord : α → Nat
  /-- The value of a word. -/
  ofWord : Nat → α
  /-- The text of the value. -/
  text : α → String

/-- Booleans are stored in one byte, and any byte but zero reads as `true`. -/
instance : Element Bool where
  zero := false
  one := true
  arithmetic := .logical fun
    | .and => (· && ·)
    | .or => (· || ·)
    | .xor => Bool.xor
  key b := b.toInt
  isUnordered _ := false
  hashBits b := b.toUInt64
  toFloat b := if b then 1.0 else 0.0
  toWord b := b.toNat
  ofWord n := n != 0
  text b := if b then "true" else "false"

/-- Signed integers of 8 bits. -/
instance : Element Int8 where
  zero := 0
  one := 1
  arithmetic := .wrapping <| .ofInstances 8 fun
    | .left, a, k => a <<< Int8.ofNat k
    | .right, a, k => a >>> Int8.ofNat k
  key := Int8.toInt
  isUnordered _ := false
  hashBits a := a.toInt64.toUInt64
  toFloat := Int8.toFloat
  toWord a := a.toUInt8.toNat
  ofWord n := (UInt8.ofNat n).toInt8
  text a := a.toInt.repr

/-- Unsigned integers of 8 bits. -/
instance : Element UInt8 where
  zero := 0
  one := 1
  arithmetic := .wrapping <| .ofInstances 8 fun
    | .left, a, k => a <<< UInt8.ofNat k
    | .right, a, k => a >>> UInt8.ofNat k
  key a := a.toNat
  isUnordered _ := false
  hashBits := UInt8.toUInt64
  toFloat := UInt8.toFloat
  toWord := UInt8.toNat
  ofWord := UInt8.ofNat
  text a := a.toNat.repr

/-- Signed integers of 16 bits. -/
instance : Element Int16 where
  zero := 0
  one := 1
  arithmetic := .wrapping <| .ofInstances 16 fun
    | .left, a, k => a <<< Int16.ofNat k
    | .right, a, k => a >>> Int16.ofNat k
  key := Int16.toInt
  isUnordered _ := false
  hashBits a := a.toInt64.toUInt64
  toFloat := Int16.toFloat
  toWord a := a.toUInt16.toNat
  ofWord n := (UInt16.ofNat n).toInt16
  text a := a.toInt.repr

/-- Unsigned integers of 16 bits. -/
instance : Element UInt16 where
  zero := 0
  one := 1
  arithmetic := .wrapping <| .ofInstances 16 fun
    | .left, a, k => a <<< UInt16.ofNat k
    | .right, a, k => a >>> UInt16.ofNat k
  key a := a.toNat
  isUnordered _ := false
  hashBits := UInt16.toUInt64
  toFloat := UInt16.toFloat
  toWord := UInt16.toNat
  ofWord := UInt16.ofNat
  text a := a.toNat.repr

/-- Signed integers of 32 bits. -/
instance : Element Int32 where
  zero := 0
  one := 1
  arithmetic := .wrapping <| .ofInstances 32 fun
    | .left, a, k => a <<< Int32.ofNat k
    | .right, a, k => a >>> Int32.ofNat k
  key := Int32.toInt
  isUnordered _ := false
  hashBits a := a.toInt64.toUInt64
  toFloat := Int32.toFloat
  toWord a := a.toUInt32.toNat
  ofWord n := (UInt32.ofNat n).toInt32
  text a := a.toInt.repr

/-- Unsigned integers of 32 bits. -/
instance : Element UInt32 where
  zero := 0
  one := 1
  arithmetic := .wrapping <| .ofInstances 32 fun
    | .left, a, k => a <<< UInt32.ofNat k
    | .right, a, k => a >>> UInt32.ofNat k
  key a := a.toNat
  isUnordered _ := false
  hashBits := UInt32.toUInt64
  toFloat := UInt32.toFloat
  toWord := UInt32.toNat
  ofWord := UInt32.ofNat
  text a := a.toNat.repr

/-- Signed integers of 64 bits. -/
instance : Element Int64 where
  zero := 0
  one := 1
  arithmetic := .wrapping <| .ofInstances 64 fun
    | .left, a, k => a <<< Int64.ofNat k
    | .right, a, k => a >>> Int64.ofNat k
  key := Int64.toInt
  isUnordered _ := false
  hashBits := Int64.toUInt64
  toFloat := Int64.toFloat
  toWord a := a.toUInt64.toNat
  ofWord n := (UInt64.ofNat n).toInt64
  text a := a.toInt.repr

/-- Unsigned integers of 64 bits. -/
instance : Element UInt64 where
  zero := 0
  one := 1
  arithmetic := .wrapping <| .ofInstances 64 fun
    | .left, a, k => a <<< UInt64.ofNat k
    | .right, a, k => a >>> UInt64.ofNat k
  key a := a.toNat
  isUnordered _ := false
  hashBits := id
  toFloat := UInt64.toFloat
  toWord := UInt64.toNat
  ofWord := UInt64.ofNat
  text a := a.toNat.repr

/-- Floating-point numbers, stored as the words of a format. Sums, differences, products and
quotients are those of the type `α` of numbers that the words are read as; a remainder is computed
on the words. Nothing is lost in storage: only computed words are ever the canonical ones. -/
@[reducible] def Element.ofFormat (f : Ieee.Format) {α : Type} [Add α] [Sub α] [Mul α] [Div α]
    (one : α) (read : f.Word → α) (write : α → f.Word) (toFloat : α → Float) : Element f.Word where
  zero := .ofNat f 0
  one := write one
  arithmetic := .rounding fun
    | .add => fun a b => write (read a + read b)
    | .subtract => fun a b => write (read a - read b)
    | .multiply => fun a b => write (read a * read b)
    | .divide => fun a b => write (read a / read b)
    | .modulo => fun a b => .ofNat f (f.remainder a.toNat b.toNat)
  key a := f.orderKey a.toNat
  isUnordered := Ieee.Format.Word.isNaN
  hashBits a := .ofNat (f.countedWord a.toNat)
  toFloat a := toFloat (read a)
  toWord := Ieee.Format.Word.toNat
  ofWord := .ofNat f
  text a := f.text a.toNat

/-- Floating-point numbers of 32 bits. -/
instance : Element Ieee.binary32.Word :=
  .ofFormat Ieee.binary32 1.0 Ieee.float32OfWord Ieee.wordOfFloat32 Float32.toFloat

/-- Floating-point numbers of 64 bits. -/
instance : Element Ieee.binary64.Word :=
  .ofFormat Ieee.binary64 1.0 Ieee.floatOfWord Ieee.wordOfFloat id

/-- A decimal is counted by the exclusive disjunction of the two halves of its word. -/
instance : Element Decimal where
  zero := .zero
  one := .one
  arithmetic := .checked fun
    | .add => Decimal.add?
    | .subtract => Decimal.sub?
    | .multiply => Decimal.mul?
    | .divide => Decimal.div?
    | .modulo => Decimal.mod?
  key := Decimal.raw
  isUnordered _ := false
  hashBits a :=
    let word := (a.raw % (1 <<< 128 : Nat)).toNat
    .ofNat word ^^^ .ofNat (word >>> 64)
  toFloat := Decimal.toFloat
  toWord a := (a.raw % (1 <<< 128 : Nat)).toNat
  ofWord n := .ofRawWrapping n
  text := Decimal.text

/-- Code units count as the unsigned 16-bit integers, except for their text. -/
instance : Element Char16 where
  zero := ⟨0⟩
  one := ⟨1⟩
  arithmetic := .wrapping <| .ofInstances 16 fun
    | .left, a, k => ⟨a.unit <<< UInt16.ofNat k⟩
    | .right, a, k => ⟨a.unit >>> UInt16.ofNat k⟩
  key a := a.unit.toNat
  isUnordered _ := false
  hashBits a := a.unit.toUInt64
  toFloat a := a.unit.toFloat
  toWord a := a.unit.toNat
  ofWord n := ⟨.ofNat n⟩
  text := Char16.text

end Columnar
