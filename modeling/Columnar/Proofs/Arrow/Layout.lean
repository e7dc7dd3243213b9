import Columnar.Proofs.Container.Views
import Columnar.Proofs.Element.Bytes
import Columnar.Proofs.Mask.History
import Columnar.Arrow.Array
/-!
# The layout of arrays

An array is well-formed if its buffers reach as far as its rows do, which is what a consumer checks
before it takes an array. The array of a chunk is well-formed, has the rows of the chunk although
its bitmap is left out when there are no nulls, and a slice of it has the rows of the range, at
whatever bit of the bitmap or of packed booleans the range begins.
-/

namespace Columnar

variable {k : Kind} {cap : ℕ}

/-- The number of bits of each value in the buffer of an array, where it is the same for all. -/
def ArrowType.elementBits? : ArrowType → Option ℕ
  | .boolean => some 1
  | .int8 | .uint8 => some 8
  | .int16 | .uint16 => some 16
  | .int32 | .uint32 | .float32 | .date32 => some 32
  | .int64 | .uint64 | .float64 => some 64
  | .decimal128 _ _ => some 128
  | .utf8 | .null => none

namespace ArrowArray

/-- The buffers of an array of values of a fixed size reach as far as its rows, and its type is one
that there is. -/
structure WellFormed (a : ArrowArray) : Prop where
  data_size : ∃ bits, a.type.elementBits? = some bits ∧
    (a.offset + a.len) * bits ≤ 8 * a.data.size
  validity_size : ∀ bytes, a.validity = some bytes → a.offset + a.len ≤ 8 * bytes.size
  /-- There are 128-bit decimals of up to 38 digits, with no more of them after the point. -/
  decimal : ∀ precision scale, a.type = .decimal128 precision scale →
    1 ≤ precision ∧ precision ≤ 38 ∧ scale ≤ precision

/-! ### Buffers of values -/

/-- A value is read back from a buffer of values, be they booleans packed into bits or words. -/
lemma unpack_pack (values : List k.Value) {i : ℕ} (hi : i < values.length) :
    unpack k (pack k values) i = values[i] := by
  cases k
  case bool =>
    show (Mask.ofBits values).isValid i = values[i]
    rw [Mask.ofBits_eq_pack, Mask.isValid_pack, List.getD_eq_getElem]
  all_goals exact Kind.Value.ofBytes_extract values hi

/-- A buffer is as large as its values need. -/
lemma size_pack (values : List k.Value) : ∃ bits, k.arrowType.elementBits? = some bits ∧
    values.length * bits ≤ 8 * (pack k values).size := by
  -- booleans take one bit each, all other values whole bytes
  cases k
  case bool =>
    refine ⟨1, rfl, ?_⟩
    show values.length * 1 ≤ 8 * (Mask.ofBits values).bytes.size
    rw [Mask.ofBits_eq_pack, (Mask.wellFormed_pack values).size_bytes, Mask.byteCount,
      Mask.len_pack]
    omega
  all_goals
    refine ⟨_, rfl, ?_⟩
    have hsize := Kind.Value.length_flatMap_toBytes values
    simp only [pack, List.size_toArray, hsize, Kind.width]
    omega

/-! ### Slices -/

lemma isValid_slice (a : ArrowArray) (offset count i : ℕ) :
    (a.slice offset count).isValid i = a.isValid (offset + i) := by
  simp only [isValid, slice, Nat.add_assoc]

lemma stored_slice (a : ArrowArray) (offset count i : ℕ) :
    (a.slice offset count).stored k i = a.stored k (offset + i) := by
  simp only [stored, slice, Nat.add_assoc]

/-- The rows of a slice are those of the range. -/
lemma cells_slice {a : ArrowArray} {offset count : ℕ} (h : offset + count ≤ a.len) :
    (a.slice offset count).cells k = ((a.cells k).drop offset).take count := by
  apply List.ext_getElem
  · simp only [cells, slice, List.length_map, List.length_range, List.length_take,
      List.length_drop]
    omega
  · intro i h1 h2
    simp [cells, isValid_slice, stored_slice]

end ArrowArray

/-! ### Arrays of chunks -/

namespace Chunk

variable {c : Chunk k}

/-- There is a null in a mask exactly if there is one among the rows. -/
lemma nullCount_pos_iff (h : c.WellFormed cap) : 0 < c.validity.nullCount ↔ none ∈ c.rows := by
  have hcount := nullCount_eq_countP h
  rw [nullCount] at hcount
  rw [hcount, List.countP_pos_iff, rows_eq_map_slots, List.mem_map]
  refine exists_congr fun x => and_congr_right fun _ => ?_
  rcases x with ⟨v, _ | _⟩ <;> simp [Slot.isNull, Slot.cell]

/-- The array of a chunk. -/
def toArrow (c : Chunk k) : ArrowArray := .ofStored k c.values.values.toList c.validity

lemma validity_toArrow (c : Chunk k) : c.toArrow.validity
    = if 0 < c.validity.nullCount then some c.validity.bytes else none := rfl

/-- The bitmap is left out only if every row has a value. -/
lemma isValid_toArrow (h : c.WellFormed cap) {i : ℕ} (hi : i < c.len) :
    c.toArrow.isValid i = c.validity.isValid i := by
  rw [ArrowArray.isValid, validity_toArrow]
  split_ifs with hnull
  · show c.validity.isValid (0 + i) = _
    rw [Nat.zero_add]
  · -- without a bitmap every row counts as a value, and no row is null
    rw [nullCount_pos_iff h, rows_eq_map_row, List.mem_map] at hnull
    by_contra hne
    refine hnull ⟨i, List.mem_range.2 hi, ?_⟩
    rw [← Option.isNone_iff_eq_none, isNone_row]
    simpa using Ne.symm hne

lemma stored_toArrow (c : Chunk k) {i : ℕ} (hi : i < c.values.values.toList.length) :
    c.toArrow.stored k i = c.values.values.toList[i] := by
  have hstored : c.toArrow.stored k i
      = ArrowArray.unpack k (ArrowArray.pack k c.values.values.toList) (0 + i) := rfl
  rw [hstored, Nat.zero_add, ArrowArray.unpack_pack _ hi]

/-- The rows of an array are those of its chunk. -/
theorem cells_toArrow (h : c.WellFormed cap) : c.toArrow.cells k = c.rows := by
  rw [rows_eq_map_row, ArrowArray.cells]
  show (List.range c.values.values.toList.length).map _ = _
  rw [length_values]
  refine List.map_congr_left fun i hi => ?_
  have hi' : i < c.values.values.toList.length := by simpa [len_eq_size] using hi
  rw [isValid_toArrow h (List.mem_range.1 hi), stored_toArrow c hi', row_eq_ite c hi']

theorem wellFormed_toArrow (h : c.WellFormed cap) : c.toArrow.WellFormed := by
  have hlen : c.toArrow.len = c.len := c.length_values
  constructor
  case data_size =>
    obtain ⟨bits, hbits, hsize⟩ := ArrowArray.size_pack c.values.values.toList
    refine ⟨bits, hbits, ?_⟩
    show (0 + c.values.values.toList.length) * bits ≤ _
    rwa [Nat.zero_add]
  case validity_size =>
    intro bytes hbytes
    rw [validity_toArrow] at hbytes
    split_ifs at hbytes
    cases hbytes
    show 0 + c.toArrow.len ≤ _
    rw [hlen, h.validity.size_bytes, h.len_validity, Mask.byteCount]
    omega
  case decimal =>
    intro precision scale htype
    have htype' : k.arrowType = .decimal128 precision scale := htype
    cases k
    case decimal =>
      cases htype'
      decide
    all_goals cases htype'

end Chunk

end Columnar
