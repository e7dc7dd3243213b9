import Columnar.Proofs.Chunk.Buffer
import Columnar.Proofs.Chunk.Slots
import Columnar.Container.Broadcast
import Columnar.Container.Update
/-!
# What the operations on a chunk do to its slots

Adding and overwriting rows can fail in general; on a well-formed chunk they fail only for want of
room or of a row to overwrite, and otherwise do to the slots what the list operation of the same
name does. The operators that run over all stored values are maps and zips of slots.
-/

namespace Columnar

variable {k : Kind}

namespace Buffer

variable {b : Buffer k}

lemma yields_append (v : k.Value) (h : b.size < b.ceiling) :
    ∃ capacity, (append v).Yields b () { b with values := b.values.push v, capacity } :=
  ⟨_, (reports_append v h.ne).yields⟩

lemma yields_appendFill (v : k.Value) {count : ℕ} (h : b.size + count ≤ b.ceiling) :
    ∃ capacity, (appendFill v count).Yields b ()
      { b with values := b.values ++ Array.replicate count v, capacity } :=
  ⟨_, (reports_appendFill v h).yields⟩

lemma yields_set {index : ℕ} (v : k.Value) (h : index < b.values.size) :
    (set index v).Yields b () { b with values := b.values.set index v h } :=
  (reports_set v h).yields

end Buffer

namespace Chunk

variable {cap : ℕ} {c d : Chunk k}

lemma yields_onValues {α : Type} {m : Edit (Buffer k) α} {a : α} {b : Buffer k}
    (h : m.Yields c.values a b) : (onValues m).Yields c a ⟨b, c.validity⟩ :=
  Edit.Yields.within _ h

lemma yields_updateValidity (f : Mask → Mask) (c : Chunk k) :
    (updateValidity f).Yields c () ⟨c.values, f c.validity⟩ :=
  Edit.yields_updates _ c

lemma wellFormed_empty (cap : ℕ) : (empty cap : Chunk k).WellFormed cap where
  ceiling_eq := rfl
  len_le := Nat.zero_le _
  len_validity := rfl
  validity := Mask.wellFormed_empty

@[simp] lemma len_empty (cap : ℕ) : (empty cap : Chunk k).len = 0 := rfl

@[simp] lemma slots_empty (cap : ℕ) : (empty cap : Chunk k).slots = [] := rfl

/-! ### Adding and overwriting rows -/

/-- With room for one more row, a push adds its slot at the end. -/
lemma yields_push (h : c.WellFormed cap) (hroom : c.len < cap) (cell : Cell k) :
    ∃ d, (push cell).Yields c () d ∧ d.WellFormed cap ∧ d.slots = c.slots ++ [cell.slot] := by
  have hlt : c.values.size < c.values.ceiling := by
    rw [h.ceiling_eq]
    exact hroom
  obtain ⟨capacity, happend⟩ := Buffer.yields_append cell.stored hlt
  refine ⟨_, (yields_onValues happend).bind (yields_updateValidity _ _), ?_, ?_⟩
  · constructor
    · exact h.ceiling_eq
    · simpa [len_eq_size] using hroom
    · simpa [len_eq_size] using h.len_validity
    · exact h.validity.push _
  · refine slots_eq (by simp [Cell.slot]) fun i hi => ?_
    rw [Mask.isValid_push h.validity, h.len_validity, List.getElem_append]
    simp only [length_slots]
    split_ifs with h1 h2 h2
    · omega
    · simp [Cell.slot]
    · exact isValid_eq_slot _
    · simp only [List.length_append, length_slots, List.length_singleton] at hi
      omega

/-- With room for `count` more rows, adding them at once adds their slots at the end. -/
lemma yields_pushMany (h : c.WellFormed cap) {count : ℕ} (hroom : c.len + count ≤ cap)
    (cell : Cell k) : ∃ d, (pushMany cell count).Yields c () d ∧ d.WellFormed cap ∧
      d.slots = c.slots ++ List.replicate count cell.slot := by
  have hle : c.values.size + count ≤ c.values.ceiling := by
    rw [h.ceiling_eq]
    exact hroom
  obtain ⟨capacity, hfill⟩ := Buffer.yields_appendFill cell.stored hle
  refine ⟨_, (yields_onValues hfill).bind (yields_updateValidity _ _), ?_, ?_⟩
  · constructor
    · exact h.ceiling_eq
    · simpa [len_eq_size] using hroom
    · simpa [len_eq_size] using h.len_validity
    · exact h.validity.extend _ _
  · refine slots_eq (by simp [Cell.slot]) fun i hi => ?_
    simp only [List.length_append, length_slots, List.length_replicate] at hi
    rw [Mask.isValid_extend h.validity, h.len_validity, List.getElem_append]
    simp only [length_slots]
    split_ifs with h1 h2 h2
    · omega
    · simp [Cell.slot]
    · exact isValid_eq_slot _
    · omega

/-- Overwriting a row that is there overwrites its slot. -/
lemma yields_set (h : c.WellFormed cap) {offset : ℕ} (hoffset : offset < c.len) (cell : Cell k) :
    ∃ d, (set offset cell).Yields c () d ∧ d.WellFormed cap ∧
      d.slots = c.slots.set offset cell.slot := by
  have hsize : offset < c.values.values.size := hoffset
  have hset := Buffer.yields_set cell.stored hsize
  have hmask : offset < c.validity.len := by
    rw [h.len_validity]
    exact hoffset
  refine ⟨_, (yields_onValues hset).bind (yields_updateValidity _ _), ?_, ?_⟩
  · constructor
    · exact h.ceiling_eq
    · simpa [len_eq_size] using h.len_le
    · simpa [len_eq_size] using h.len_validity
    · exact h.validity.set hmask _
  · refine slots_eq (by simp [List.map_set, Cell.slot]) fun i hi => ?_
    rw [Mask.isValid_set h.validity hmask, List.getElem_set]
    split_ifs with h1 h2 h2
    · rfl
    · exact absurd h1.symm h2
    · exact absurd h2.symm h1
    · exact isValid_eq_slot _

/-- Dropping rows at the end drops their slots. -/
lemma slots_truncate (h : c.WellFormed cap) (len : ℕ) :
    (c.truncate len).WellFormed cap ∧ (c.truncate len).slots = c.slots.take len := by
  have hsize : (c.truncate len).len = min len c.len := by
    simp [truncate, Buffer.truncate, len_eq_size]
  constructor
  · constructor
    · exact h.ceiling_eq
    · have hle := h.len_le
      omega
    · rw [hsize, ← h.len_validity]
      exact Mask.len_truncate _ _
    · exact h.validity.truncate len
  · refine slots_eq (by simp [truncate, Buffer.truncate]) fun i hi => ?_
    rw [List.length_take, length_slots] at hi
    have hlt : i < len := by omega
    rw [truncate, Mask.isValid_truncate h.validity, List.getElem_take]
    simp only [hlt, decide_true, Bool.true_and]
    exact isValid_eq_slot _

/-! ### Running over the stored values -/

/-- Other values for as many slots, with the same flags. -/
lemma slots_withValues (h : c.WellFormed cap) {values : Array k.Value} {f : Slot k → k.Value}
    (hvalues : values.toList = c.slots.map f) : (c.withValues values).WellFormed cap ∧
      (c.withValues values).slots = c.slots.map fun s => (f s, s.2) := by
  have hsize : (c.withValues values).len = c.len := by
    rw [len_eq_size, withValues, ← Array.length_toList, hvalues, List.length_map, length_slots]
  constructor
  · constructor
    · exact h.ceiling_eq
    · exact hsize.le.trans h.len_le
    · exact h.len_validity.trans hsize.symm
    · exact h.validity
  · refine slots_eq ?_ fun i hi => ?_
    · rw [withValues, hvalues, List.map_map]
      rfl
    · have hi' : i < c.slots.length := by simpa using hi
      rw [List.getElem_map]
      exact isValid_eq_slot hi'

/-- A function of each value and its flag is a function of the slots. -/
lemma toList_mapIdx_isValid (c : Chunk k) (g : k.Value → Bool → k.Value) :
    (c.values.values.mapIdx fun i v => g v (c.validity.isValid i)).toList
      = c.slots.map fun s => g s.1 s.2 := by
  apply List.ext_getElem
  · simp [len_eq_size]
  · intro i h1 h2
    have hi : i < c.slots.length := by simpa using h2
    simp [getElem_slots c hi (lt_size hi)]

lemma toList_map_values (c : Chunk k) (f : k.Value → k.Value) :
    (c.values.values.map f).toList = c.slots.map fun s => f s.1 := by
  rw [Array.toList_map, ← map_fst_slots, List.map_map]
  rfl

/-- Values for the pairs of slots of two chunks; a row is null if it is null in either. -/
lemma slots_zip (hc : c.WellFormed cap) {cap' : ℕ} (hd : d.WellFormed cap') (hlen : c.len = d.len)
    {values : Array k.Value} {g : Slot k → Slot k → k.Value}
    (hvalues : values.toList = List.zipWith g c.slots d.slots) :
    Chunk.WellFormed cap { c.withValues values with validity := c.validity.and d.validity } ∧
      Chunk.slots { c.withValues values with validity := c.validity.and d.validity }
        = List.zipWith (fun s t => (g s t, s.2 && t.2)) c.slots d.slots := by
  have hsize : values.size = c.len := by
    rw [← Array.length_toList, hvalues, List.length_zipWith, length_slots, length_slots, hlen,
      min_self]
  have hmask : c.validity.len = d.validity.len := by
    rw [hc.len_validity, hd.len_validity, hlen]
  have hbytes : c.validity.bytes.size = d.validity.bytes.size := by
    rw [hc.validity.size_bytes, hd.validity.size_bytes, hmask]
  constructor
  · constructor
    · exact hc.ceiling_eq
    · exact hsize.le.trans hc.len_le
    · exact hc.len_validity.trans hsize.symm
    · exact hc.validity.and hd.validity hmask
  · refine slots_eq ?_ fun i hi => ?_
    · rw [List.map_zipWith]
      exact hvalues
    · rw [List.length_zipWith] at hi
      rw [Mask.isValid_and hbytes, List.getElem_zipWith, ← isValid_eq_slot (by omega),
        ← isValid_eq_slot (by omega)]

lemma toList_zipWith_values (c d : Chunk k) (f : k.Value → k.Value → k.Value) :
    (c.values.values.zipWith f d.values.values).toList
      = List.zipWith (fun s t => f s.1 t.1) c.slots d.slots := by
  rw [Array.toList_zipWith, ← map_fst_slots, ← map_fst_slots, List.zipWith_map]

/-- An operator that runs over all stored values of two chunks. -/
lemma slots_zipWith (hc : c.WellFormed cap) {cap' : ℕ} (hd : d.WellFormed cap')
    (hlen : c.len = d.len) (f : k.Value → k.Value → k.Value) :
    (zipWith f c d).WellFormed cap ∧ (zipWith f c d).slots
      = List.zipWith (fun s t => (f s.1 t.1, s.2 && t.2)) c.slots d.slots :=
  slots_zip hc hd hlen (toList_zipWith_values c d f)

/-- Giving every null a value leaves no null. -/
lemma slots_fillNullsInChunk (h : c.WellFormed cap) (v : k.Value) :
    (Container.fillNullsInChunk v c).WellFormed cap ∧ (Container.fillNullsInChunk v c).slots
      = c.slots.map fun s => (if s.2 then s.1 else v, true) := by
  have hle : c.len ≤ c.validity.len := h.len_validity.ge
  obtain ⟨hwf, hlen, hvalid⟩ := Mask.foldl_set_true h.validity hle
  have hvalues := toList_mapIdx_isValid c fun old valid => if valid then old else v
  have hsize : (Container.fillNullsInChunk v c).len = c.len := by
    simp [Container.fillNullsInChunk, withValues, len_eq_size]
  constructor
  · constructor
    · exact h.ceiling_eq
    · exact hsize.le.trans h.len_le
    · exact hlen.trans (h.len_validity.trans hsize.symm)
    · exact hwf
  · refine slots_eq ?_ fun i hi => ?_
    · rw [List.map_map]
      exact hvalues
    · have hi' : i < c.len := by simpa using hi
      rw [List.getElem_map]
      exact (hvalid i).trans (by simp [hi'])

/-- A copy has the contents of the chunk. -/
lemma slots_copy (h : c.WellFormed cap) : c.copy.WellFormed cap ∧ c.copy.slots = c.slots :=
  ⟨⟨h.ceiling_eq, h.len_le, h.len_validity, h.validity⟩, rfl⟩

end Chunk

end Columnar
