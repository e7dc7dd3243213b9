import Columnar.Proofs.Chunk.Guarded
import Columnar.Proofs.Container.Update
import Columnar.View
/-!
# Guarded operations on containers

The guarded forms of reading, overwriting, exporting and resizing: a chunk is looked up by its
number, a flag or a value by its offset, and no length or count is taken from a smaller one. On a
container that stores some slots, each of them returns what the operation itself returns, so that
only an index past the end is ever refused.
-/

namespace Columnar

variable {k : Kind}

namespace Container

variable {α : Type} {o : Options} {s : List (Slot k)} {c : Container k}

/-! ### Reading -/

/-- The chunk with a number. -/
def chunk? (c : Container k) (chunk : ℕ) : Option (Chunk k) := c.chunks[chunk]?

/-- What is read at the place of a row. -/
def readAt? (c : Container k) (index : ℕ) (read : Chunk k → ℕ → Option α) : Guarded α := do
  let (chunk, offset) ← c.locate index
  read (← c.chunk? chunk) offset

/-- The row at an index. -/
def get? (c : Container k) (index : ℕ) : Guarded (Cell k) := c.readAt? index Chunk.row?

/-- Whether the row at an index holds a value. -/
def isValid? (c : Container k) (index : ℕ) : Guarded Bool :=
  c.readAt? index fun chunk offset => chunk.validity.read? offset

/-- The number of rows from `start` to the end of its chunk. -/
def maxContiguousRun? (c : Container k) (start : ℕ) : Guarded ℕ :=
  if c.isEmpty then pure 0
  else c.readAt? start fun chunk offset => sub? chunk.len offset

namespace Stores

/-- The chunk in which a row lies is there, and has an offset for the row. -/
lemma chunk?_eq (h : c.Stores o s) {i : ℕ} (hi : i < s.length) :
    c.chunk? (i / o.chunkCapacity k) = some (c.chunkAt (i / o.chunkCapacity k)) ∧
      (c.chunkAt (i / o.chunkCapacity k)).WellFormed (o.chunkCapacity k) ∧
      i % o.chunkCapacity k < (c.chunkAt (i / o.chunkCapacity k)).len := by
  obtain ⟨hj, -, hchunk, -⟩ := h.exists_chunkAt hi
  refine ⟨?_, h.wellFormed_chunkAt hi⟩
  rw [hchunk]
  exact Array.getElem?_eq_getElem hj

lemma isValid_chunkAt (h : c.Stores o s) {i : ℕ} (hi : i < s.length) :
    (c.chunkAt (i / o.chunkCapacity k)).validity.isValid (i % o.chunkCapacity k) = s[i].2 := by
  obtain ⟨_, ho, -, hslot⟩ := h.exists_chunkAt hi
  rw [← hslot]
  exact Chunk.isValid_eq_slot ho

/-- What is read within the bounds of chunks is read within those of a container. -/
lemma readAt?_returns (h : c.Stores o s) {read? : Chunk k → ℕ → Option α}
    {read : Chunk k → ℕ → α}
    (hread : ∀ (chunk : Chunk k) offset, chunk.WellFormed (o.chunkCapacity k) →
      offset < chunk.len → read? chunk offset = some (read chunk offset)) (index : ℕ) :
    (c.readAt? index read?).Returns (do
      let (chunk, offset) ← c.locate index
      return read (c.chunkAt chunk) offset) := by
  refine (Guarded.returns_except _).bind fun place hplace => ?_
  rcases Nat.lt_or_ge index s.length with hlt | hge
  · rw [h.locate_eq_ok hlt] at hplace
    cases hplace
    obtain ⟨hchunk, hwf, hoffset⟩ := h.chunk?_eq hlt
    refine (Guarded.returns_some hchunk).ok_bind ?_
    exact Guarded.returns_some (hread _ _ hwf hoffset)
  · rw [h.locate_eq_error hge] at hplace
    cases hplace

lemma get?_returns (h : c.Stores o s) (index : ℕ) : (c.get? index).Returns (c.get index) :=
  h.readAt?_returns (fun _ _ hwf hlt => hwf.row?_eq hlt) index

lemma isValid?_returns (h : c.Stores o s) (index : ℕ) :
    (c.isValid? index).Returns (c.isValid index) :=
  h.readAt?_returns (fun _ _ hwf hlt => hwf.validity.read?_eq (hwf.lt_validity hlt)) index

lemma maxContiguousRun?_returns (h : c.Stores o s) (start : ℕ) :
    (c.maxContiguousRun? start).Returns (c.maxContiguousRun start) := by
  rw [maxContiguousRun?, maxContiguousRun]
  split_ifs
  · exact Guarded.returns_pure 0
  · exact h.readAt?_returns (fun _ _ _ hlt => sub?_eq_some hlt.le) start

end Stores

/-! ### Exporting -/

/-- The view of `count` rows from `start` on. -/
def exportRange? (c : Container k) (start count : ℕ) : Guarded (View k) :=
  if count = 0 then pure View.empty
  else if c.len < start + count then
    throw (.indexOutOfRange (min (start + count - 1) (UInt64.size - 1)) c.len)
  else do
    let chunk ← c.chunk? (← c.chunkIndexForRow start)
    let offset := start % c.chunkCapacity
    if chunk.len < offset + count then
      throw (.rangeSpansMultipleChunks start (start + count) c.chunkCapacity)
    else
      let nullCount ← chunk.validity.countNulls? offset (offset + count)
      return ⟨chunk.values.values, some chunk.validity.bytes, offset, count, nullCount⟩

lemma Stores.exportRange?_returns (h : c.Stores o s) (start count : ℕ) :
    (c.exportRange? start count).Returns (c.exportRange start count) := by
  rw [exportRange?, exportRange]
  by_cases hcount : count = 0
  · rw [if_pos hcount, if_pos hcount]
    exact Guarded.returns_pure _
  rw [if_neg hcount, if_neg hcount]
  by_cases hlen : c.len < start + count
  · simp only [if_pos hlen]
    exact Guarded.returns_throw _
  simp only [if_neg hlen]
  have hlt : start < s.length := by
    rw [← h.len_eq]
    omega
  have hindex : c.chunkIndexForRow start = .ok (start / o.chunkCapacity k) := by
    rw [chunkIndexForRow, h.locate_eq_ok hlt]
    rfl
  obtain ⟨hchunk, hwf, -⟩ := h.chunk?_eq hlt
  refine (Guarded.returns_except _).bind fun number hnumber => ?_
  rw [hindex] at hnumber
  cases hnumber
  refine (Guarded.returns_some hchunk).ok_bind ?_
  generalize c.chunkAt (start / o.chunkCapacity k) = chunk at hwf ⊢
  by_cases hfits : chunk.len < start % c.chunkCapacity + count
  · simp only [if_pos hfits]
    exact Guarded.returns_throw _
  · simp only [if_neg hfits]
    have hstop : start % c.chunkCapacity + count ≤ chunk.validity.len := by
      rw [hwf.len_validity]
      omega
    have hnulls := hwf.validity.countNulls?_eq (Nat.le_add_right _ _) hstop
    exact (Guarded.returns_some hnulls).ok_bind (Guarded.returns_pure _)

/-! ### Overwriting -/

/-- The null count after the flag of a row has changed. -/
def nullCountAfter? (c : Container k) (wasValid isValid : Bool) : Option ℕ :=
  match wasValid, isValid with
  | true, false => some (c.nullCount + 1)
  | false, true => sub? c.nullCount 1
  | _, _ => some c.nullCount

/-- Replace the row at an index. -/
def set? (index : ℕ) (cell : Cell k) (c : Container k) : Guarded (Container k) := do
  let (number, offset) ← c.locate index
  let (wasValid, chunk) ← (← c.chunk? number).overwrite? offset cell
  let nullCount ← c.nullCountAfter? wasValid cell.isSome
  return { c with chunks := c.chunks.setIfInBounds number chunk, nullCount }

/-- The count is lowered only for a null that is counted. -/
lemma Stores.nullCountAfter?_eq (h : c.Stores o s) {i : ℕ} (hi : i < s.length) (isValid : Bool) :
    c.nullCountAfter? s[i].2 isValid = some (match s[i].2, isValid with
      | true, false => c.nullCount + 1
      | false, true => c.nullCount - 1
      | _, _ => c.nullCount) := by
  rcases hs : s[i].2 with _ | _ <;> rcases isValid with _ | _
  case false.true =>
    have hpos : 0 < c.nullCount := by
      rw [h.nullCount_eq, List.countP_pos_iff]
      exact ⟨s[i], List.getElem_mem hi, by simp [Slot.isNull, hs]⟩
    exact sub?_eq_some hpos
  all_goals rfl

lemma Stores.set?_returns (h : c.Stores o s) (index : ℕ) (cell : Cell k) :
    (c.set? index cell).Returns ((set index cell).runOn c).result := by
  rcases Nat.lt_or_ge index s.length with hlt | hge
  · have hplace := h.locate_eq_ok hlt
    obtain ⟨hchunk, hwf, hoffset⟩ := h.chunk?_eq hlt
    obtain ⟨d, hset, hoverwrite⟩ := hwf.overwrite?_eq hoffset cell
    have hcount := h.nullCountAfter?_eq hlt cell.isSome
    rw [← h.isValid_chunkAt hlt] at hcount
    rw [(yields_set_of_locate hplace hset).result_runOn, set?, hplace]
    refine (Guarded.returns_except _).ok_bind ?_
    refine (Guarded.returns_some hchunk).ok_bind ?_
    refine (Guarded.returns_some hoverwrite).ok_bind ?_
    exact (Guarded.returns_some hcount).ok_bind (Guarded.returns_pure _)
  · rw [Edit.result_runOn, (refuses_set h hge cell).result, set?, h.locate_eq_error hge]
    rfl

/-! ### Dropping and adding rows -/

/-- The numbers of nulls that are dropped with the rows from `len` on, chunk by chunk. -/
def droppedNulls? (c : Container k) (len : ℕ) : Option (List ℕ) :=
  (c.chunks.toList.zipIdx.drop (c.chunkCount len - 1)).mapM fun (chunk, i) =>
    chunk.validity.countNulls? (min (len - i * c.chunkCapacity) chunk.len) chunk.len

/-- The chunks that are kept for the rows up to `len`, the last of them cut. -/
def keptChunks? (c : Container k) (len : ℕ) : Option (Array (Chunk k)) :=
  let kept := c.chunks.take (c.chunkCount len)
  if kept.isEmpty then some kept
  else do
    let full ← sub? (c.chunkCount len) 1
    let tail ← sub? len (full * c.chunkCapacity)
    return kept.modify (kept.size - 1) (·.truncate tail)

/-- Drop the rows from `len` on. -/
def truncate? (c : Container k) (len : ℕ) : Option (Container k) := do
  let dropped ← c.droppedNulls? len
  let chunks ← c.keptChunks? len
  return { c with chunks, len, nullCount := ← sub? c.nullCount dropped.sum }

/-- `Container.resize`, with the number of rows to be added taken from a larger one. -/
def resize? (newLen : ℕ) (c : Container k) : Option (Outcome (Container k) Unit) :=
  if c.len ≤ newLen then do return appendMany none (← sub? newLen c.len) c
  else do return ⟨.ok (), ← c.truncate? newLen, #[]⟩

namespace Stores

lemma droppedNulls?_eq (h : c.Stores o s) (len : ℕ) :
    ∃ dropped, c.droppedNulls? len = some dropped ∧ dropped.sum = c.nullsFrom len := by
  have hcounts : ∀ p ∈ c.chunks.toList.zipIdx.drop (c.chunkCount len - 1),
      p.1.validity.countNulls? (min (len - p.2 * c.chunkCapacity) p.1.len) p.1.len
        = some (p.1.validity.nullCountIn (min (len - p.2 * c.chunkCapacity) p.1.len) p.1.len) := by
    rintro ⟨chunk, i⟩ hmem
    obtain ⟨hi, hchunk⟩ := List.mem_zipIdx' (List.mem_of_mem_drop hmem)
    have hwf := h.packed.wellFormed chunk (hchunk ▸ List.getElem_mem hi)
    exact hwf.countNulls?_eq (min_le_right _ _)
  refine ⟨_, mapM_eq_some hcounts, ?_⟩
  rw [nullsFrom, List.sum_eq_foldl, List.foldl_map]

lemma keptChunks?_eq (h : c.Stores o s) (len : ℕ) :
    c.keptChunks? len = some (c.truncate len).chunks := by
  rcases h.chunkCount_cases len with ⟨rfl, hcount⟩ | ⟨q, r, -, -, rfl, hcount⟩
  · simp [keptChunks?, Container.truncate, hcount]
  · have hfull : sub? (q + 1) 1 = some q := sub?_eq_some (Nat.le_add_left _ _)
    have htail : sub? (q * o.chunkCapacity k + r) (q * o.chunkCapacity k) = some r := by
      rw [sub?_eq_some (Nat.le_add_right _ _), Nat.add_sub_cancel_left]
    simp only [keptChunks?, Container.truncate, hcount, h.chunkCapacity_eq, hfull,
      Nat.add_sub_cancel, Nat.add_sub_cancel_left]
    split_ifs with hempty
    · rw [Array.isEmpty_iff.1 hempty]
      rfl
    · show (sub? _ (q * o.chunkCapacity k) >>= fun tail => some _) = _
      rw [htail]
      rfl

/-- The nulls that are dropped are among those that are counted. -/
lemma truncate?_eq (h : c.Stores o s) {len : ℕ} (hlen : len < s.length) :
    c.truncate? len = some (c.truncate len) := by
  obtain ⟨dropped, hdropped, hsum⟩ := h.droppedNulls?_eq len
  have hle : dropped.sum ≤ c.nullCount := by
    rw [hsum, h.nullsFrom_eq_countP hlen, h.nullCount_eq]
    exact (List.drop_sublist len s).countP_le
  rw [truncate?, hdropped, h.keptChunks?_eq, Container.truncate, ← hsum]
  show (sub? c.nullCount dropped.sum >>= fun nullCount => some _) = _
  rw [sub?_eq_some hle]
  rfl

lemma resize?_eq (h : c.Stores o s) (newLen : ℕ) : c.resize? newLen = some (resize newLen c) := by
  rw [resize?, resize]
  split_ifs with hle
  · rw [sub?_eq_some hle]
    rfl
  · rw [h.truncate?_eq (h.len_eq ▸ not_le.1 hle)]
    rfl

end Stores

/-! ### Building -/

/-- The container with its nulls counted anew. -/
def recount? (c : Container k) : Option (Container k) := do
  let counts ← c.chunks.toList.mapM fun chunk =>
    chunk.validity.countNulls? 0 chunk.validity.len
  return { c with nullCount := counts.sum }

lemma recount?_eq (hwf : ∀ chunk ∈ c.chunks.toList, chunk.validity.WellFormed) :
    c.recount? = some c.recountNulls := by
  have hcounts := mapM_eq_some fun (chunk : Chunk k) hc =>
    (hwf chunk hc).countNulls?_eq (Nat.zero_le _) le_rfl
  rw [recount?, hcounts, recountNulls, scannedNullCount, ← Array.foldl_toList]
  show some _ = _
  rw [List.sum_eq_foldl, List.foldl_map]
  rfl

end Container

namespace Builder

variable {o : Options} {s : List (Slot k)} {b : Builder k}

/-- The last chunk. -/
def last? (b : Builder k) : Option (Chunk k) := do
  b.chunks[← sub? b.chunks.size 1]?

/-- Open a chunk and add a row to it. -/
def push? (b : Builder k) (cell : Cell k) : Guarded (Builder k) := do
  let opened := b.openChunk
  let chunk ← (← opened.last?).push? cell
  return ⟨opened.chunks.setIfInBounds (opened.chunks.size - 1) chunk, b.len + 1, b.options⟩

/-- Add the rows of a list one by one. -/
def pushAll? (b : Builder k) (rows : List (Cell k)) : Guarded (Builder k) :=
  rows.foldlM push? b

lemma Stores.push?_returns (h : b.Stores o s) (cell : Cell k) :
    (b.push? cell).Returns ((push cell).runOn b).result := by
  obtain ⟨full, last, hopen, hopened⟩ := exists_openChunk h
  obtain ⟨chunk, hpush, -, -⟩ := Chunk.yields_push hopened.last_wellFormed hopened.last_lt cell
  have hguarded := hopened.last_wellFormed.push?_returns hopened.last_lt cell hpush
  have hlast : last? { b with chunks := (full ++ [last]).toArray } = some last := by
    have hsize : sub? (full.length + 1) 1 = some full.length := sub?_eq_some (by omega)
    simp [last?, hsize]
  rw [(yields_push_of_opened hopen hpush).result_runOn, push?, hopen]
  refine (Guarded.returns_some hlast).ok_bind (hguarded.ok_bind ?_)
  simp [Guarded.Returns]

lemma Stores.pushAll?_returns (h : b.Stores o s) (rows : List (Cell k)) :
    (b.pushAll? rows).Returns ((Edit.forEach rows push).runOn b).result := by
  induction rows generalizing b s with
  | nil => exact Guarded.returns_pure b
  | cons cell rows ih =>
    obtain ⟨d, hd, hstores⟩ := yields_push h cell
    have hpush := h.push?_returns cell
    rw [hd.result_runOn] at hpush
    obtain ⟨hresult, hstate⟩ := Edit.bind_of_ok (f := fun _ => Edit.forEach rows push) hd.result
    rw [Edit.forEach_cons, Edit.result_runOn, hresult, hstate, hd.state, ← Edit.result_runOn]
    exact hpush.ok_bind (ih hstores)

end Builder

namespace Container

/-- The container of a list of rows. -/
def ofRows? (rows : List (Cell k)) (o : Options) : Guarded (Container k) := do
  let b ← Builder.pushAll? { options := o } rows
  recount? ⟨b.chunks, b.len, 0, b.options⟩

theorem ofRows?_returns (rows : List (Cell k)) (o : Options) :
    (ofRows? rows o).Returns (ofRows rows o).result := by
  have hempty : Builder.Stores { options := o } o ([] : List (Slot k)) := Builder.stores_empty o
  obtain ⟨b, hb, hstores⟩ := Builder.yields_pushAll hempty rows
  have hpushes := hempty.pushAll?_returns rows
  have hrecount : recount? ⟨b.chunks, b.len, 0, b.options⟩ = some b.finish :=
    recount?_eq fun chunk hc => (hstores.packed.wellFormed chunk hc).validity
  rw [hb.result_runOn] at hpushes
  rw [ofRows, Builder.build, Traced.result_bind, hb.result_runOn]
  exact hpushes.ok_bind (Guarded.returns_some hrecount)

end Container

end Columnar
