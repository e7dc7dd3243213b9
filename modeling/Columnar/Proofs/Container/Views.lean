import Columnar.Proofs.Container.Rows
import Columnar.View
/-!
# What views show

A view reads the buffer and the bitmap of a whole chunk at an offset. The view of a range of a chunk
has the rows and the nulls of this range, and the views of all chunks together have those of the
container. A range of rows of a container is exported if it ends before the container does and in
the chunk in which it begins.
-/

namespace Columnar

variable {k : Kind} {o : Options} {s : List (Slot k)} {rows : List (Cell k)}

namespace Chunk

/-- The rows are those read at the offsets below the length. -/
lemma rows_eq_map_row (c : Chunk k) : c.rows = (List.range c.len).map c.row := by
  rw [rows_eq_map_slots]
  apply List.ext_getElem
  · simp
  · intro i h1 h2
    rw [List.length_map] at h1
    rw [List.getElem_map, List.getElem_map, List.getElem_range, row_eq_cell h1]

lemma length_values (c : Chunk k) : c.values.values.toList.length = c.len := by
  rw [Array.length_toList, len_eq_size]

lemma row_eq_ite (c : Chunk k) {i : ℕ} (hi : i < c.values.values.toList.length) :
    c.row i = if c.validity.isValid i then some c.values.values.toList[i] else none := by
  have hi' : i < c.values.values.size := by simpa using hi
  simp [row, Array.getD, hi']

lemma isNone_row (c : Chunk k) (i : ℕ) : (c.row i).isNone = !c.validity.isValid i := by
  rw [row]
  cases c.validity.isValid i <;> rfl

end Chunk

namespace View

/-! ### Views of one chunk -/

lemma isValid_ofChunk (c : Chunk k) (offset count i : ℕ) :
    (ofChunk c offset count).isValid i = c.validity.isValid (offset + i) := rfl

lemma get_ofChunk (c : Chunk k) (offset count i : ℕ) :
    (ofChunk c offset count).get i = if i < count then c.row (offset + i) else none := by
  rw [get, isValid_ofChunk, Chunk.row]
  by_cases hi : i < count
  · simp [ofChunk, hi]
  · simp [ofChunk, hi]

lemma rows_ofChunk {c : Chunk k} {offset count : ℕ} (h : offset + count ≤ c.len) :
    (ofChunk c offset count).rows = (c.rows.drop offset).take count := by
  rw [Chunk.rows_eq_map_row, rows]
  apply List.ext_getElem
  · simp only [ofChunk, List.length_map, List.length_range, List.length_take, List.length_drop]
    omega
  · intro i h1 h2
    have hi : i < count := by simpa [ofChunk] using h1
    simp [get_ofChunk, hi]

lemma rows_ofChunk_self (c : Chunk k) : (ofChunk c 0 c.len).rows = c.rows := by
  rw [rows_ofChunk (Nat.zero_add _).le, List.drop_zero, List.take_of_length_le]
  exact (Chunk.length_rows c).le

/-- The nulls that a view counts are those among its rows. -/
lemma nullCount_ofChunk (c : Chunk k) (offset count : ℕ) :
    (ofChunk c offset count).nullCount = (ofChunk c offset count).rows.countP Option.isNone := by
  show c.validity.nullCountIn offset (offset + count) = _
  rw [Mask.nullCountIn_eq_countP, Nat.add_sub_cancel_left, List.range'_eq_map_range,
    List.countP_map, rows, List.countP_map]
  refine List.countP_congr fun i hi => ?_
  have hi' : i < count := List.mem_range.1 hi
  simp [get_ofChunk, hi', Chunk.isNone_row]

/-- The view shows the `count` rows of a container from `start` on, and reads nothing that its
buffers do not have. -/
structure Shows (v : View k) (c : Container k) (start count : ℕ) : Prop where
  len_eq : v.len = count
  get_eq : ∀ i < count, c.get (start + i) = .ok (v.get i)
  isValid_eq : ∀ i < count, c.isValid (start + i) = .ok (v.isValid i)
  /-- Past the end there are nulls. -/
  get_of_le : ∀ i, count ≤ i → v.get i = none
  /-- The nulls are those among the rows of the range. -/
  nullCount_eq : v.nullCount = ((c.rows.drop start).take count).countP Option.isNone
  /-- There is a stored value for every row. -/
  le_size : v.offset + count ≤ v.values.size
  /-- There is a flag for every row. -/
  le_bits : ∃ bytes, v.validity = some bytes ∧ v.offset + count ≤ 8 * bytes.size

end View

namespace Container

variable {c : Container k} {start count : ℕ}

/-! ### Views of all chunks -/

lemma flatMap_rows_exportChunks (c : Container k) : c.exportChunks.flatMap View.rows = c.rows := by
  rw [exportChunks, List.flatMap_map, rows]
  exact List.flatMap_congr fun chunk _ => View.rows_ofChunk_self chunk

lemma Holds.sum_nullCount_exportChunks (h : c.Holds o rows) :
    (c.exportChunks.map View.nullCount).sum = c.nullCount := by
  rw [h.nullCount_eq, ← h.rows_eq, ← flatMap_rows_exportChunks, List.countP_flatMap]
  congr 1
  rw [exportChunks, List.map_map, List.map_map]
  exact List.map_congr_left fun chunk _ => View.nullCount_ofChunk chunk 0 chunk.len

/-! ### Views of ranges -/

namespace Stores

/-- The rows from one on to the end of its chunk. -/
lemma maxContiguousRun_eq_ok (h : c.Stores o s) (hstart : start < s.length) :
    c.maxContiguousRun start = .ok
      ((c.chunkAt (start / o.chunkCapacity k)).len - start % o.chunkCapacity k) := by
  have hlen := h.len_eq
  have hempty : c.isEmpty = false := by
    rw [isEmpty, beq_eq_false_iff_ne]
    omega
  rw [maxContiguousRun, hempty, if_neg Bool.false_ne_true, h.locate_eq_ok hstart]
  rfl

/-- A range that does not reach past the end is exported if it ends in the chunk it begins in. -/
lemma exportRange_eq_ite (h : c.Stores o s) (hcount : 0 < count)
    (hstop : start + count ≤ s.length) : c.exportRange start count =
      if (c.chunkAt (start / o.chunkCapacity k)).len < start % o.chunkCapacity k + count then
        .error (.rangeSpansMultipleChunks start (start + count) (o.chunkCapacity k))
      else .ok (View.ofChunk (c.chunkAt (start / o.chunkCapacity k)) (start % o.chunkCapacity k)
        count) := by
  have hlen := h.len_eq
  have hindex : c.chunkIndexForRow start = .ok (start / o.chunkCapacity k) := by
    rw [chunkIndexForRow, h.locate_eq_ok (by omega)]
    rfl
  rw [exportRange, if_neg (by omega), hindex, h.chunkCapacity_eq]
  simp only [if_neg (show ¬ c.len < start + count by omega)]
  by_cases hfits : (c.chunkAt (start / o.chunkCapacity k)).len < start % o.chunkCapacity k + count
  · simp only [if_pos hfits, bind, Except.bind]
    rfl
  · simp only [if_neg hfits, bind, Except.bind]
    rfl

lemma exportRange_eq_indexOutOfRange (h : c.Stores o s) (hcount : 0 < count)
    (hstop : s.length < start + count) : c.exportRange start count
      = .error (.indexOutOfRange (min (start + count - 1) (UInt64.size - 1)) c.len) := by
  rw [exportRange, if_neg (by omega)]
  simp only [if_pos (show c.len < start + count by rw [h.len_eq]; exact hstop)]
  rfl

/-- The rows after one in the same chunk are found at the offsets after its own. -/
lemma locate_add (h : c.Stores o s) {i : ℕ} (hi : start + i < s.length)
    (hoffset : start % o.chunkCapacity k + i < o.chunkCapacity k) :
    c.locate (start + i) = .ok (start / o.chunkCapacity k, start % o.chunkCapacity k + i) := by
  have hsplit : start + i = o.chunkCapacity k * (start / o.chunkCapacity k)
      + (start % o.chunkCapacity k + i) := by
    rw [← Nat.add_assoc, Nat.div_add_mod]
  rw [h.locate_eq_ok hi, hsplit, Nat.mul_add_div h.capacity_pos, Nat.mul_add_mod,
    Nat.div_eq_of_lt hoffset, Nat.mod_eq_of_lt hoffset, Nat.add_zero]

/-- The view of a range that lies in one chunk shows the rows of the range. -/
lemma shows_ofChunk (h : c.Stores o s) (hcount : 0 < count) (hstop : start + count ≤ s.length)
    (hfits : start % o.chunkCapacity k + count ≤ (c.chunkAt (start / o.chunkCapacity k)).len) :
    (View.ofChunk (c.chunkAt (start / o.chunkCapacity k)) (start % o.chunkCapacity k)
      count).Shows c start count := by
  set chunk := c.chunkAt (start / o.chunkCapacity k) with hchunk
  set offset := start % o.chunkCapacity k with hoffset
  obtain ⟨hwf, -⟩ := h.wellFormed_chunkAt (show start < s.length by omega)
  rw [← hchunk] at hwf
  -- the range does not leave the chunk, so that the offset grows with the row number
  have hlocate : ∀ i < count, c.locate (start + i)
      = .ok (start / o.chunkCapacity k, offset + i) := by
    intro i hi
    have hle := hwf.len_le
    exact h.locate_add (by omega) (by omega)
  have hget : ∀ i < count, c.get (start + i) = .ok ((View.ofChunk chunk offset count).get i) := by
    intro i hi
    rw [get, hlocate i hi, View.get_ofChunk, if_pos hi]
    rfl
  constructor
  case len_eq => rfl
  case get_eq => exact hget
  case le_size => exact hfits
  case isValid_eq =>
    intro i hi
    rw [isValid, hlocate i hi, View.isValid_ofChunk]
    rfl
  case get_of_le =>
    intro i hi
    rw [View.get_ofChunk, if_neg (Nat.not_lt.2 hi)]
  case nullCount_eq =>
    rw [View.nullCount_ofChunk]
    congr 1
    apply List.ext_getElem
    · simp only [View.rows, View.ofChunk, List.length_map, List.length_range, List.length_take,
        List.length_drop, h.rows_eq]
      omega
    · intro i h1 h2
      have hi : i < count := by simpa [View.rows, View.ofChunk] using h1
      have hrow := hget i hi
      rw [h.get_eq_ok (by omega), Except.ok.injEq] at hrow
      simp [View.rows, h.rows_eq, hrow]
  case le_bits =>
    refine ⟨_, rfl, ?_⟩
    show offset + count ≤ 8 * chunk.validity.bytes.size
    rw [hwf.validity.size_bytes, hwf.len_validity, Mask.byteCount]
    omega

end Stores

/-- How the `count` rows from `start` on are exported. -/
structure ExportsRange (c : Container k) (start count : ℕ) : Prop where
  empty : count = 0 → c.exportRange start count = .ok View.empty
  /-- Exactly a range that ends past the end of the container is out of range; the sum is taken over
  the natural numbers and does not wrap around. -/
  pastEnd : 0 < count → (c.exportRange start count
    = .error (.indexOutOfRange (min (start + count - 1) (UInt64.size - 1)) c.len) ↔
      c.len < start + count)
  /-- Any other range is exported if it is no longer than the rows there are up to the end of the
  chunk, and is refused if it is. -/
  inside : 0 < count → start + count ≤ c.len → ∃ run, c.maxContiguousRun start = .ok run ∧
    (c.exportRange start count
      = .error (.rangeSpansMultipleChunks start (start + count) c.chunkCapacity) ↔ run < count) ∧
    (count ≤ run → ∃ v, c.exportRange start count = .ok v ∧ v.Shows c start count)

lemma Stores.exportsRange (h : c.Stores o s) (start count : ℕ) : c.ExportsRange start count := by
  have hlen := h.len_eq
  constructor
  case empty =>
    rintro rfl
    rfl
  case pastEnd =>
    intro hcount
    constructor
    · intro he
      by_contra hstop
      rw [h.exportRange_eq_ite hcount (by omega)] at he
      split_ifs at he
      cases he
    · intro hstop
      exact h.exportRange_eq_indexOutOfRange hcount (hlen ▸ hstop)
  case inside =>
    intro hcount hstop
    obtain ⟨-, hoffset⟩ := h.wellFormed_chunkAt (show start < s.length by omega)
    refine ⟨_, h.maxContiguousRun_eq_ok (by omega), ?_, fun hrun => ?_⟩
    · -- `start` has an offset in its chunk, so that the run is the length less the offset
      rw [h.exportRange_eq_ite hcount (by omega), h.chunkCapacity_eq]
      split_ifs with hfits
      · simp only [true_iff]
        omega
      · simp only [false_iff]
        omega
    · rw [h.exportRange_eq_ite hcount (by omega), if_neg (by omega)]
      exact ⟨_, rfl, h.shows_ofChunk hcount (by omega) (by omega)⟩

end Container

end Columnar
