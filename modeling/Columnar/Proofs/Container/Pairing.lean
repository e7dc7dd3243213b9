import Columnar.Proofs.Container.Update
import Columnar.Container.Binary
/-!
# Pairing the chunks of two containers

Two containers are combined chunk by chunk and offset by offset. When their chunks have equal
sizes, that is working through their slots in parallel; the check of layouts finds the first chunk
in which they differ.
-/

namespace Columnar

variable {k : Kind}

/-- The pairs of slots of paired chunks are the pairs of slots. -/
lemma zip_flatMap_slots {left right : List (Chunk k)}
    (hlen : left.map Chunk.len = right.map Chunk.len) :
    (left.flatMap Chunk.slots).zip (right.flatMap Chunk.slots)
      = (left.zip right).flatMap fun p => p.1.slots.zip p.2.slots := by
  induction left generalizing right with
  | nil => simp
  | cons c left ih =>
    cases right with
    | nil => simp at hlen
    | cons d right =>
      simp only [List.map_cons, List.cons.injEq] at hlen
      simp only [List.flatMap_cons, List.zip_cons_cons]
      rw [List.zip_append (by simp [hlen.1]), ih hlen.2]

namespace Container

variable {o o' : Options} {s t : List (Slot k)} {left right : Container k}

/-- The numbers of rows of the chunks. -/
def sizes (c : Container k) : List ℕ := c.chunks.toList.map Chunk.len

lemma rowsInChunk_eq (c : Container k) (j : ℕ) : c.rowsInChunk j = c.sizes[j]?.getD 0 := by
  rw [rowsInChunk, sizes, List.getElem?_map, Array.getElem?_toList]
  cases c.chunks[j]? <;> rfl

namespace Stores

/-- There are no chunks without rows. -/
lemma pos_of_mem_sizes (h : left.Stores o s) {n : ℕ} (hn : n ∈ left.sizes) : 0 < n := by
  obtain ⟨chunk, hc, rfl⟩ := List.mem_map.1 hn
  exact (h.wellFormed.len_bounds chunk (Array.mem_toList_iff.1 hc)).1

lemma sum_sizes (h : left.Stores o s) : left.sizes.sum = left.len :=
  h.wellFormed.sum_len

/-- No chunk without rows stands where the other container has rows. -/
lemma getElem?_sizes_eq_iff (hl : left.Stores o s) (hr : right.Stores o' t) (j : ℕ) :
    left.sizes[j]? = right.sizes[j]? ↔ left.rowsInChunk j = right.rowsInChunk j := by
  rw [rowsInChunk_eq, rowsInChunk_eq]
  constructor
  · intro heq
    rw [heq]
  · -- a missing chunk counts as one of no rows, and no chunk that is there has none
    intro heq
    rcases hj : left.sizes[j]? with _ | m <;> rcases hj' : right.sizes[j]? with _ | n
    · rfl
    · have := hr.pos_of_mem_sizes (List.mem_of_getElem? hj')
      simp [hj, hj'] at heq
      omega
    · have := hl.pos_of_mem_sizes (List.mem_of_getElem? hj)
      simp [hj, hj'] at heq
      omega
    · simpa [hj, hj'] using heq

/-- Containers of equal sizes have as many slots. -/
lemma length_eq (hl : left.Stores o s) (hr : right.Stores o' t) (heq : left.sizes = right.sizes) :
    s.length = t.length := by
  rw [← hl.len_eq, ← hr.len_eq, ← hl.sum_sizes, ← hr.sum_sizes, heq]

/-- Containers of different sizes have a first chunk that differs, where the check stops. -/
lemma firstDifference?_eq_some (hl : left.Stores o s) (hr : right.Stores o' t)
    (hne : left.sizes ≠ right.sizes) : ∃ j, firstDifference? left right = some j ∧
      left.sizes[j]? ≠ right.sizes[j]? ∧ ∀ i < j, left.sizes[i]? = right.sizes[i]? := by
  rcases hfind : firstDifference? left right with _ | j
  · refine absurd (List.ext_getElem? fun j => ?_) hne
    rw [firstDifference?, List.find?_range_eq_none] at hfind
    by_cases hj : j < max left.chunks.size right.chunks.size
    · rw [hl.getElem?_sizes_eq_iff hr]
      simpa using hfind j hj
    · rw [List.getElem?_eq_none (by simp [sizes]; omega),
        List.getElem?_eq_none (by simp [sizes]; omega)]
  · rw [firstDifference?, List.find?_range_eq_some] at hfind
    obtain ⟨hj, -, hlt⟩ := hfind
    refine ⟨j, rfl, ?_, fun i hi => ?_⟩
    · rw [Ne, hl.getElem?_sizes_eq_iff hr]
      simpa using hj
    · rw [hl.getElem?_sizes_eq_iff hr]
      simpa using hlt i hi

lemma firstDifference?_eq_none (heq : left.sizes = right.sizes) :
    firstDifference? left right = none := by
  rw [firstDifference?, List.find?_eq_none]
  intro j _
  simp [rowsInChunk_eq, heq]

/-- Containers of equal sizes can be paired. -/
lemma checkLayout_eq_ok (hl : left.Stores o s) (hr : right.Stores o' t)
    (heq : left.sizes = right.sizes) : checkLayout left right = .ok () := by
  have hlen : left.len = right.len := by
    rw [← hl.sum_sizes, ← hr.sum_sizes, heq]
  simp [checkLayout, hlen, firstDifference?_eq_none heq]

/-- Of two containers of different lengths, the lengths are reported. -/
lemma checkLayout_of_len_ne (hne : left.len ≠ right.len) :
    checkLayout left right = .error (.lengthMismatch left.len right.len) := by
  simp [checkLayout, hne]

/-- Of two containers of one length, the first chunks of different sizes are reported. -/
lemma checkLayout_of_sizes_ne (hl : left.Stores o s) (hr : right.Stores o' t)
    (hlen : left.len = right.len) (hne : left.sizes ≠ right.sizes) :
    ∃ j, left.sizes[j]? ≠ right.sizes[j]? ∧ (∀ i < j, left.sizes[i]? = right.sizes[i]?) ∧
      checkLayout left right = .error
        (.layoutMismatch j (left.sizes[j]?.getD 0) (right.sizes[j]?.getD 0)) := by
  obtain ⟨j, hfind, hj, hlt⟩ := hl.firstDifference?_eq_some hr hne
  refine ⟨j, hj, hlt, ?_⟩
  simp [checkLayout, hlen, hfind, rowsInChunk_eq]

/-- Containers that pass the check have equal sizes. -/
lemma sizes_eq_of_checkLayout (hl : left.Stores o s) (hr : right.Stores o' t)
    (h : checkLayout left right = .ok ()) : left.sizes = right.sizes := by
  by_contra hne
  by_cases hlen : left.len = right.len
  · obtain ⟨j, -, -, he⟩ := hl.checkLayout_of_sizes_ne hr hlen hne
    rw [he] at h
    cases h
  · rw [checkLayout_of_len_ne hlen] at h
    cases h

/-- The pairs of slots, chunk by chunk. -/
lemma zip_slots (hl : left.Stores o s) (hr : right.Stores o' t) (heq : left.sizes = right.sizes) :
    s.zip t = (chunkPairs left right).flatMap fun c => c.1.slots.zip c.2.slots := by
  rw [← hl.flatMap_slots, ← hr.flatMap_slots, zip_flatMap_slots heq]
  rfl

/-- What is looked for in the pairs of slots of all paired chunks is looked for in all pairs. -/
lemma any_chunkPairs (hl : left.Stores o s) (hr : right.Stores o' t)
    (heq : left.sizes = right.sizes) (p : Slot k × Slot k → Bool) :
    ((chunkPairs left right).any fun c => (c.1.slots.zip c.2.slots).any p) = (s.zip t).any p := by
  rw [hl.zip_slots hr heq, List.any_flatMap]

end Stores

end Container

end Columnar
