import Columnar.Proofs.Container.Packing
import Columnar.Container.Layout
/-!
# What a container holds

`c.Stores o s` says that the container has the options `o`, that its chunks are packed with the
slots `s`, and that its counts are right. It is what every operation on containers keeps, with the
slots changed as the operation says, and it fixes the container up to the sizes of its
allocations. `Container.WellFormed` spells out the same state chunk by chunk, without mentioning
slots.
-/

namespace Columnar

variable {k : Kind} {o : Options} {s : List (Slot k)}

namespace Container

/-- The container holds the slots `s` under the options `o`. -/
structure Stores (c : Container k) (o : Options) (s : List (Slot k)) : Prop where
  options_eq : c.options = o
  packed : Packed (o.chunkCapacity k) c.chunks.toList s
  len_eq : c.len = s.length
  nullCount_eq : c.nullCount = s.countP Slot.isNull

/-- The state that every container is in: as few chunks as possible, all full but the last, each
within its bounds and with a mask that fits, and the right counts. -/
structure WellFormed (c : Container k) : Prop where
  /-- There are as many chunks as it takes to hold the rows. -/
  chunks_size : c.chunks.size = (c.len + c.chunkCapacity - 1) / c.chunkCapacity
  /-- Every chunk but the last is full. -/
  len_of_lt : ∀ i (h : i < c.chunks.size), i + 1 < c.chunks.size →
    c.chunks[i].len = c.chunkCapacity
  /-- Every chunk has a row, and no more rows than fit. -/
  len_bounds : ∀ chunk ∈ c.chunks, 1 ≤ chunk.len ∧ chunk.len ≤ c.chunkCapacity
  /-- The rows of the chunks are the rows of the container. -/
  sum_len : (c.chunks.toList.map Chunk.len).sum = c.len
  /-- No chunk may grow past the capacity. -/
  ceiling_eq : ∀ chunk ∈ c.chunks, chunk.values.ceiling = c.chunkCapacity
  /-- No chunk takes more bytes than a chunk may. -/
  byteSize_le : ∀ chunk ∈ c.chunks, chunk.values.byteSize ≤ maxChunkBytes
  /-- A mask has a flag for every row. -/
  len_validity : ∀ chunk ∈ c.chunks, chunk.validity.len = chunk.values.size
  /-- A mask has no bytes but those its flags take. -/
  size_bytes : ∀ chunk ∈ c.chunks,
    chunk.validity.bytes.size = (chunk.validity.len + 7) / 8
  /-- The bits past the flags are clear. -/
  tail_clear : ∀ chunk ∈ c.chunks, ∀ i, chunk.validity.len ≤ i →
    chunk.validity.isValid i = false
  /-- The null count is the number of clear flags. -/
  nullCount_eq : c.nullCount = (c.chunks.toList.map fun chunk =>
    (List.range chunk.validity.len).countP fun i => !chunk.validity.isValid i).sum

namespace Stores

variable {c d : Container k}

lemma capacity_pos (_ : c.Stores o s) : 0 < o.chunkCapacity k := o.chunkCapacity_pos k

lemma chunkCapacity_eq (h : c.Stores o s) : c.chunkCapacity = o.chunkCapacity k := by
  rw [chunkCapacity, h.options_eq]

/-- The slots are those of the chunks. -/
lemma flatMap_slots (h : c.Stores o s) : c.chunks.toList.flatMap Chunk.slots = s :=
  h.packed.flatMap_slots

lemma map_len (h : c.Stores o s) :
    c.chunks.toList.map Chunk.len = chunkSizes (o.chunkCapacity k) c.len := by
  rw [h.packed.map_len, h.len_eq]

/-- A container that holds slots is well-formed. -/
theorem wellFormed (h : c.Stores o s) : c.WellFormed := by
  have hcap := o.chunkCapacity_pos k
  have hwf : ∀ chunk ∈ c.chunks, chunk.WellFormed (o.chunkCapacity k) := fun chunk hc =>
    h.packed.wellFormed chunk (Array.mem_toList_iff.2 hc)
  have hcapacity := h.chunkCapacity_eq
  constructor
  case chunks_size => rw [← Array.length_toList, h.packed.length_eq hcap, hcapacity, h.len_eq]
  case len_of_lt =>
    intro i hi hlast
    have hmem : c.chunks[i] ∈ c.chunks.toList.take (i + 1) :=
      List.mem_iff_getElem.2 ⟨i, by simp [hi], by simp⟩
    rw [hcapacity]
    exact h.packed.len_of_mem_take hcap (by simpa using hlast) hmem
  case len_bounds =>
    intro chunk hc
    rw [hcapacity]
    refine ⟨?_, (hwf chunk hc).len_le⟩
    -- the chunks are none, or full ones and a last one with a row
    rcases h.packed.eq_nil_or_concat hcap with ⟨hnil, -⟩ | ⟨full, last, hcons, hlen, hpos, -⟩
    · exact absurd (Array.mem_toList_iff.2 hc) (by simp [hnil])
    · have hmem := Array.mem_toList_iff.2 hc
      rw [hcons, List.mem_append, List.mem_singleton] at hmem
      rcases hmem with hfull | rfl
      · rw [hlen chunk hfull]
        exact hcap
      · exact hpos
  case sum_len => rw [h.map_len, sum_chunkSizes hcap]
  case ceiling_eq =>
    intro chunk hc
    rw [hcapacity]
    exact (hwf chunk hc).ceiling_eq
  case byteSize_le =>
    intro chunk hc
    refine le_trans ?_ (o.chunkCapacity_mul_width_le k)
    exact Nat.mul_le_mul_right _ (hwf chunk hc).len_le
  case len_validity => exact fun chunk hc => (hwf chunk hc).len_validity
  case size_bytes => exact fun chunk hc => (hwf chunk hc).validity.size_bytes
  case tail_clear => exact fun chunk hc => (hwf chunk hc).validity.tail_clear
  case nullCount_eq =>
    rw [h.nullCount_eq, ← h.packed.sum_nullCount]
    congr 1
    exact List.map_congr_left fun chunk _ => Mask.nullCount_eq_countP chunk.validity

/-! ### The counts -/

/-- The masks have as many clear flags as there are nulls among the slots. -/
lemma scannedNullCount_of_packed {cap : ℕ} (h : Packed cap c.chunks.toList s) :
    c.scannedNullCount = s.countP Slot.isNull := by
  rw [← h.sum_nullCount, scannedNullCount, ← Array.foldl_toList, List.sum_eq_foldl,
    List.foldl_map]

/-- Counting the nulls anew makes the null count right. -/
lemma recountNulls (hoptions : c.options = o)
    (hpacked : Packed (o.chunkCapacity k) c.chunks.toList s) (hlen : c.len = s.length) :
    c.recountNulls.Stores o s :=
  ⟨hoptions, hpacked, hlen, scannedNullCount_of_packed hpacked⟩

/-! ### Uniqueness -/

/-- Containers that hold the same slots agree in everything but their allocations. -/
theorem contents_unique (hc : c.Stores o s) (hd : d.Stores o s) :
    c.chunks.toList.map (fun chunk => (chunk.values.values, chunk.validity))
        = d.chunks.toList.map (fun chunk => (chunk.values.values, chunk.validity)) ∧
      c.len = d.len ∧ c.nullCount = d.nullCount ∧ c.options = d.options :=
  ⟨hc.packed.contents_unique hd.packed, hc.len_eq.trans hd.len_eq.symm,
    hc.nullCount_eq.trans hd.nullCount_eq.symm, hc.options_eq.trans hd.options_eq.symm⟩

/-! ### Reading -/

lemma rows_eq (h : c.Stores o s) : c.rows = s.map Slot.cell := by
  rw [rows, ← h.flatMap_slots, List.map_flatMap]
  exact List.flatMap_congr fun chunk _ => chunk.rows_eq_map_slots

lemma locate_eq_ok (h : c.Stores o s) {i : ℕ} (hi : i < s.length) :
    c.locate i = .ok (i / o.chunkCapacity k, i % o.chunkCapacity k) := by
  rw [locate, if_pos (h.len_eq ▸ hi), h.chunkCapacity_eq]

lemma locate_eq_error (h : c.Stores o s) {i : ℕ} (hi : s.length ≤ i) :
    c.locate i = .error (.indexOutOfRange i s.length) := by
  rw [locate, h.len_eq, if_neg (by omega)]

/-- The chunk in which a slot lies, and the slot in it. -/
lemma exists_chunkAt (h : c.Stores o s) {i : ℕ} (hi : i < s.length) :
    ∃ (hj : i / o.chunkCapacity k < c.chunks.size)
      (ho : i % o.chunkCapacity k < (c.chunkAt (i / o.chunkCapacity k)).slots.length),
      c.chunkAt (i / o.chunkCapacity k) = c.chunks[i / o.chunkCapacity k] ∧
      (c.chunkAt (i / o.chunkCapacity k)).slots[i % o.chunkCapacity k] = s[i] := by
  obtain ⟨hj, ho, hslot⟩ := h.packed.exists_getElem h.capacity_pos hi
  have hj' : i / o.chunkCapacity k < c.chunks.size := by simpa using hj
  have hchunk : c.chunkAt (i / o.chunkCapacity k) = c.chunks[i / o.chunkCapacity k] := by
    simp [chunkAt, Array.getD, hj']
  simp only [Array.getElem_toList] at ho hslot
  simp only [hchunk]
  exact ⟨hj', ho, trivial, hslot⟩

/-- The chunk in which a slot lies is one of the chunks, and has the offset of the slot. -/
lemma wellFormed_chunkAt (h : c.Stores o s) {i : ℕ} (hi : i < s.length) :
    (c.chunkAt (i / o.chunkCapacity k)).WellFormed (o.chunkCapacity k) ∧
      i % o.chunkCapacity k < (c.chunkAt (i / o.chunkCapacity k)).len := by
  obtain ⟨hj, ho, hchunk, -⟩ := h.exists_chunkAt hi
  rw [Chunk.length_slots] at ho
  refine ⟨?_, ho⟩
  rw [hchunk]
  exact h.packed.wellFormed _ (by simp)

/-- The row at an index is that of the slot with this number. -/
theorem get_eq_ok (h : c.Stores o s) {i : ℕ} (hi : i < s.length) :
    c.get i = .ok (Slot.cell s[i]) := by
  obtain ⟨_, ho, -, hslot⟩ := h.exists_chunkAt hi
  rw [get, h.locate_eq_ok hi, ← hslot, ← Chunk.row_eq_cell ho]
  rfl

theorem isValid_eq_ok (h : c.Stores o s) {i : ℕ} (hi : i < s.length) :
    c.isValid i = .ok s[i].2 := by
  obtain ⟨_, ho, -, hslot⟩ := h.exists_chunkAt hi
  rw [isValid, h.locate_eq_ok hi, ← hslot, ← Chunk.isValid_eq_slot ho]
  rfl

lemma get_eq_error (h : c.Stores o s) {i : ℕ} (hi : s.length ≤ i) :
    c.get i = .error (.indexOutOfRange i s.length) := by
  rw [get, h.locate_eq_error hi]
  rfl

/-- A row with a value is a slot with the flag set. -/
lemma get_eq_some_iff (h : c.Stores o s) {i : ℕ} {v : k.Value} :
    c.get i = .ok (some v) ↔ ∃ hi : i < s.length, s[i] = (v, true) := by
  rcases Nat.lt_or_ge i s.length with hlt | hge
  · rw [h.get_eq_ok hlt]
    rcases hs : s[i] with ⟨w, _ | _⟩
    · simp [Slot.cell, hs]
    · simp [Slot.cell, hs, hlt]
  · rw [h.get_eq_error hge]
    simp [hge]

end Stores

end Container

end Columnar
