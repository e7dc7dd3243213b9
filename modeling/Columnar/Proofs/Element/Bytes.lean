import Mathlib
import Columnar.Value
/-!
# Values as bytes

The values of a buffer follow one another as little-endian words of the width of their kind. A value
of any kind is determined by its word, so that it is read back from its bytes, and a value in the
middle of a buffer from the bytes at a multiple of the width.
-/

namespace Columnar

/-- The word of a value fits the bits in which it is stored, and the value is read back from it. -/
def Element.Restores {α : Type} (e : Element α) (bits : ℕ) : Prop :=
  ∀ v, e.toWord v < 2 ^ bits ∧ e.ofWord (e.toWord v) = v

/-- A floating-point number is the word in which it is stored. -/
lemma Element.restores_ofFormat (f : Ieee.Format) {α : Type} [Add α] [Sub α] [Mul α] [Div α]
    {one : α} {read : f.Word → α} {write : α → f.Word} {toFloat : α → Float} :
    (ofFormat f one read write toFloat).Restores f.width := fun v =>
  ⟨v.bits.isLt, v.ofNat_toNat⟩

/-- The word of a decimal is its unit count modulo the range of words, and is centred again. -/
lemma Decimal.ofRawWrapping_toNat_emod (d : Decimal) :
    ofRawWrapping ((d.raw % (1 <<< 128 : ℕ)).toNat : ℕ) = d := by
  have hmin : -2 ^ 127 ≤ d.raw := d.min_le
  have hmax : d.raw < 2 ^ 127 := d.lt_max
  have hnonneg : 0 ≤ d.raw % (1 <<< 128 : ℕ) := Int.emod_nonneg _ (by decide)
  have hraw : (((d.raw % (1 <<< 128 : ℕ)).toNat : ℕ) : ℤ).bmod (1 <<< 128) = d.raw := by
    rw [Int.toNat_of_nonneg hnonneg, Int.emod_bmod]
    exact Int.bmod_eq_of_le hmin hmax
  exact (Decimal.mk.injEq ..).mpr hraw

namespace Kind

/-- Every value of a kind is determined by the bits in which it is stored. -/
theorem restores (k : Kind) : k.element.Restores (8 * k.width) := by
  cases k with
  | bool => exact fun v => by cases v <;> decide
  | int8 => exact fun v => ⟨v.toUInt8.toNat_lt, congrArg UInt8.toInt8 UInt8.ofNat_toNat⟩
  | int16 => exact fun v => ⟨v.toUInt16.toNat_lt, congrArg UInt16.toInt16 UInt16.ofNat_toNat⟩
  | int32 => exact fun v => ⟨v.toUInt32.toNat_lt, congrArg UInt32.toInt32 UInt32.ofNat_toNat⟩
  | int64 => exact fun v => ⟨v.toUInt64.toNat_lt, congrArg UInt64.toInt64 UInt64.ofNat_toNat⟩
  | uint8 => exact fun v => ⟨v.toNat_lt, UInt8.ofNat_toNat⟩
  | uint16 => exact fun v => ⟨v.toNat_lt, UInt16.ofNat_toNat⟩
  | uint32 => exact fun v => ⟨v.toNat_lt, UInt32.ofNat_toNat⟩
  | uint64 => exact fun v => ⟨v.toNat_lt, UInt64.ofNat_toNat⟩
  | char16 => exact fun v => ⟨v.unit.toNat_lt, congrArg Char16.mk UInt16.ofNat_toNat⟩
  | float32 => exact Element.restores_ofFormat Ieee.binary32
  | float64 => exact Element.restores_ofFormat Ieee.binary64
  | decimal =>
    refine fun v => ⟨?_, Decimal.ofRawWrapping_toNat_emod v⟩
    have hnonneg : 0 ≤ v.raw % (1 <<< 128 : ℕ) := Int.emod_nonneg _ (by decide)
    exact (Int.toNat_lt hnonneg).2 (Int.emod_lt_of_pos _ (by decide))

namespace Value

variable {k : Kind}

@[simp] lemma length_toBytes (v : k.Value) : (toBytes v).length = k.width :=
  LittleEndian.length_encode _ _

/-- A value is read back from its bytes. -/
theorem ofBytes_toBytes (v : k.Value) : ofBytes k (toBytes v) = v := by
  obtain ⟨hlt, hword⟩ := k.restores v
  rw [ofBytes, toBytes, LittleEndian.decode_encode, Nat.one_shiftLeft, Nat.mod_eq_of_lt hlt, hword]

/-! ### Values one after the other -/

lemma length_flatMap_toBytes (values : List k.Value) :
    (values.flatMap toBytes).length = values.length * k.width := by
  simp [List.length_flatMap]

/-- The bytes of the value at an index begin after those of as many values. -/
lemma take_drop_flatMap_toBytes (values : List k.Value) {i : ℕ} (hi : i < values.length) :
    ((values.flatMap toBytes).drop (i * k.width)).take k.width = toBytes values[i] := by
  induction values generalizing i with
  | nil => simp at hi
  | cons v values ih =>
    cases i with
    | zero => simp
    | succ i =>
      have hdrop : (i + 1) * k.width = (toBytes v).length + i * k.width := by
        rw [length_toBytes]
        ring
      rw [List.flatMap_cons, hdrop, List.drop_length_add_append]
      exact ih (by simpa using hi)

/-- A value is read back from the bytes of a list of values. -/
theorem ofBytes_extract (values : List k.Value) {i : ℕ} (hi : i < values.length) :
    ofBytes k ((values.flatMap toBytes).toArray.extract (i * k.width)
      ((i + 1) * k.width)).toList = values[i] := by
  have hlen : (i + 1) * k.width - i * k.width = k.width := by
    rw [Nat.add_mul, Nat.one_mul, Nat.add_sub_cancel_left]
  rw [Array.toList_extract, List.extract_eq_take_drop, hlen, take_drop_flatMap_toBytes values hi,
    ofBytes_toBytes]

end Value

end Kind

end Columnar
