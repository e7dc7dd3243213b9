import Columnar.Proofs.Chunk.Operations
import Columnar.Proofs.Guarded
/-!
# Guarded access to a chunk

The guarded forms of what is done to the mask and to the stored values of a chunk: reading a flag or
a value at an offset, overwriting them, adding one more, counting nulls in a range, and working
through all offsets of a chunk, or of two side by side. A mask is guarded by its length, and by its
bytes as well. On well-formed chunks, no guard is hit.
-/

namespace Columnar

variable {k : Kind} {α : Type}

/-! ### Masks -/

namespace Mask

/-- The flag at an index below the length. -/
def read? (m : Mask) (index : ℕ) : Option Bool := if index < m.len then m.isValid? index else none

/-- The flag that was at an index below the length, and the mask with another flag there. -/
def write? (m : Mask) (index : ℕ) (valid : Bool) : Option (Bool × Mask) :=
  if index < m.len then m.set? index valid else none

/-- The mask with one more flag, which is written into the last byte. A byte is begun for every
eight flags. -/
def push? (m : Mask) (valid : Bool) : Option Mask :=
  let size := if m.len % 8 = 0 then m.bytes.size + 1 else m.bytes.size
  if m.len / 8 < size then some (m.push valid) else none

/-- The number of nulls in a range of indices up to the length. -/
def countNulls? (m : Mask) (start stop : ℕ) : Option ℕ :=
  if start ≤ stop ∧ stop ≤ m.len then m.nullCountIn? start stop else none

/-- The flags that are set in this mask and in another one of its length. -/
def and? (m other : Mask) : Option Mask := if m.len = other.len then some (m.and other) else none

namespace WellFormed

variable {m : Mask}

lemma read?_eq (h : m.WellFormed) {i : ℕ} (hi : i < m.len) : m.read? i = some (m.isValid i) := by
  rw [read?, if_pos hi, isValid?, if_pos (h.index_lt hi)]

lemma write?_eq (h : m.WellFormed) {i : ℕ} (hi : i < m.len) (valid : Bool) :
    m.write? i valid = some (m.isValid i, m.set i valid) := by
  rw [write?, if_pos hi, set?, if_pos (h.index_lt hi)]

lemma push?_eq (h : m.WellFormed) (valid : Bool) : m.push? valid = some (m.push valid) := by
  have hsize := h.size_bytes
  rw [byteCount] at hsize
  refine if_pos ?_
  split_ifs <;> omega

lemma countNulls?_eq (h : m.WellFormed) {start stop : ℕ} (hle : start ≤ stop)
    (hstop : stop ≤ m.len) : m.countNulls? start stop = some (m.nullCountIn start stop) := by
  have hbytes : ¬ (start < stop ∧ 8 * m.bytes.size < stop) := by
    rw [h.size_bytes, byteCount]
    omega
  rw [countNulls?, if_pos ⟨hle, hstop⟩, nullCountIn?, if_neg hbytes]

end WellFormed

end Mask

/-! ### Single slots -/

/-- Reading all elements of a list, one index after the other. -/
lemma mapM_range_eq_some {l : List α} {f : ℕ → Option α}
    (h : ∀ i (hi : i < l.length), f i = some l[i]) : (List.range l.length).mapM f = some l := by
  induction l generalizing f with
  | nil => rfl
  | cons a l ih =>
    have hrest : (List.range l.length).mapM (f ∘ Nat.succ) = some l :=
      ih fun i hi => h (i + 1) (Nat.succ_lt_succ hi)
    rw [List.length_cons, List.range_succ_eq_map, List.mapM_cons, h 0 (Nat.zero_lt_succ _),
      List.mapM_map, hrest]
    rfl

namespace Chunk

variable {cap cap' : ℕ} {c d : Chunk k}

/-- The value stored at an offset and its flag. -/
def slot? (c : Chunk k) (offset : ℕ) : Option (Slot k) := do
  return (← c.values.values[offset]?, ← c.validity.read? offset)

/-- The row at an offset. The value is read also beneath a null. -/
def row? (c : Chunk k) (offset : ℕ) : Option (Cell k) := (c.slot? offset).map Slot.cell

/-- The flag that was at an offset, and the chunk with another row there. -/
def overwrite? (c : Chunk k) (offset : ℕ) (cell : Cell k) : Option (Bool × Chunk k) :=
  if h : offset < c.values.values.size then do
    let (wasValid, validity) ← c.validity.write? offset cell.isSome
    let values := c.values.values.set offset cell.stored h
    return (wasValid, ⟨{ c.values with values }, validity⟩)
  else none

namespace WellFormed

lemma lt_validity (h : c.WellFormed cap) {offset : ℕ} (hlt : offset < c.len) :
    offset < c.validity.len := by
  rw [h.len_validity]
  exact hlt

lemma slot?_eq (h : c.WellFormed cap) {offset : ℕ} (hlt : offset < c.slots.length) :
    c.slot? offset = some c.slots[offset] := by
  have hread := h.validity.read?_eq (h.lt_validity (length_slots c ▸ hlt))
  rw [slot?, Array.getElem?_eq_getElem (lt_size hlt), hread, getElem_slots c hlt (lt_size hlt)]
  rfl

lemma row?_eq (h : c.WellFormed cap) {offset : ℕ} (hlt : offset < c.len) :
    c.row? offset = some (c.row offset) := by
  have hslot : offset < c.slots.length := by rwa [length_slots]
  rw [row?, h.slot?_eq hslot, row_eq_cell hslot]
  rfl

/-- Overwriting within bounds gives the flag that was there, and what `Chunk.set` leaves behind. -/
lemma overwrite?_eq (h : c.WellFormed cap) {offset : ℕ} (hlt : offset < c.len) (cell : Cell k) :
    ∃ d, (set offset cell).Yields c () d ∧
      c.overwrite? offset cell = some (c.validity.isValid offset, d) := by
  have hsize : offset < c.values.values.size := hlt
  have hset := Buffer.yields_set (b := c.values) cell.stored hsize
  refine ⟨_, (yields_onValues hset).bind (yields_updateValidity _ _), ?_⟩
  rw [overwrite?, dif_pos hsize, h.validity.write?_eq (h.lt_validity hlt)]
  rfl

end WellFormed

/-! ### Adding a row -/

/-- The chunk with one more row. -/
def push? (c : Chunk k) (cell : Cell k) : Guarded (Chunk k) := do
  let values ← ((Buffer.append cell.stored).runOn c.values).result
  return ⟨values, ← c.validity.push? cell.isSome⟩

/-- The guarded push of a chunk with room leaves what `Chunk.push` does. -/
lemma WellFormed.push?_returns (h : c.WellFormed cap) (hroom : c.len < cap) (cell : Cell k)
    (hd : (push cell).Yields c () d) : (c.push? cell).Returns (.ok d) := by
  have hlt : c.values.size < c.values.ceiling := by
    rw [h.ceiling_eq]
    exact hroom
  obtain ⟨capacity, happend⟩ := Buffer.yields_append cell.stored hlt
  have hpush : (push cell).Yields c () _ :=
    (yields_onValues happend).bind (yields_updateValidity _ _)
  rw [← hd.state, hpush.state, push?, happend.result_runOn]
  refine (Guarded.returns_except _).ok_bind ?_
  exact (Guarded.returns_some (h.validity.push?_eq _)).ok_bind (Guarded.returns_pure _)

/-! ### All slots -/

/-- The slots, read one after the other. -/
def slots? (c : Chunk k) : Option (List (Slot k)) := (List.range c.len).mapM c.slot?

/-- The slots side by side with those of another chunk, read one pair after the other. -/
def slotPairs? (c d : Chunk k) : Option (List (Slot k × Slot k)) :=
  (List.range c.len).mapM fun offset => do return (← c.slot? offset, ← d.slot? offset)

/-- The chunk with other values, as many as it has. -/
def replace? (c : Chunk k) (values : Array k.Value) : Option (Chunk k) :=
  if values.size = c.len then some (c.withValues values) else none

/-- The chunk with other values, and only the rows that are not null in a second chunk either. -/
def replaceBoth? (c d : Chunk k) (values : Array k.Value) : Option (Chunk k) := do
  let c ← c.replace? values
  return { c with validity := ← c.validity.and? d.validity }

namespace WellFormed

lemma slots?_eq (h : c.WellFormed cap) : c.slots? = some c.slots := by
  rw [slots?, ← length_slots]
  exact mapM_range_eq_some fun offset hlt => h.slot?_eq hlt

lemma slotPairs?_eq (hc : c.WellFormed cap) (hd : d.WellFormed cap') (hlen : c.len = d.len) :
    c.slotPairs? d = some (c.slots.zip d.slots) := by
  have hlength : c.len = (c.slots.zip d.slots).length := by
    rw [List.length_zip, length_slots, length_slots, hlen, min_self]
  rw [slotPairs?, hlength]
  refine mapM_range_eq_some fun offset hlt => ?_
  rw [List.length_zip] at hlt
  rw [hc.slot?_eq (by omega), hd.slot?_eq (by omega), List.getElem_zip]
  rfl

lemma countNulls?_eq (h : c.WellFormed cap) {start : ℕ} (hle : start ≤ c.len) :
    c.validity.countNulls? start c.len = some (c.validity.nullCountIn start c.len) :=
  h.validity.countNulls?_eq hle h.len_validity.ge

lemma replaceBoth?_eq (hc : c.WellFormed cap) (hd : d.WellFormed cap') (hlen : c.len = d.len)
    {values : Array k.Value} (hsize : values.size = c.len) :
    c.replaceBoth? d values
      = some { c.withValues values with validity := c.validity.and d.validity } := by
  have hmask : c.validity.len = d.validity.len := by
    rw [hc.len_validity, hd.len_validity, hlen]
  rw [replaceBoth?, replace?, if_pos hsize]
  show (c.validity.and? d.validity >>= fun validity => some _) = _
  rw [Mask.and?, if_pos hmask]
  rfl

end WellFormed

end Chunk

end Columnar
