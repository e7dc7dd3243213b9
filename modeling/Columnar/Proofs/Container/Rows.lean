import Columnar.Proofs.Container.Pairing
import Columnar.Proofs.Container.Simulation
import Columnar.Proofs.Refinement
/-!
# What the rows of a container determine

`c.Holds o rows` says that `c` is in the state that every container is in, and has the options `o`
and the rows of a list. What is stored beneath nulls is left open. All the same, the options and the
rows fix every number that is kept along, the sizes of the chunks, and what is read at any index;
and the storage operations refine those on lists of rows.
-/

namespace Columnar

variable {k : Kind} {o : Options} {rows : List (Cell k)} {s : List (Slot k)}

namespace Slot

lemma isNone_cell (x : Slot k) : x.cell.isNone = x.isNull := by
  rcases x with ⟨v, _ | _⟩ <;> rfl

/-- The nulls among the rows are those among the slots. -/
lemma countP_isNone_map_cell (s : List (Slot k)) :
    (s.map Slot.cell).countP Option.isNone = s.countP Slot.isNull := by
  rw [List.countP_map]
  exact List.countP_congr fun x _ => by rw [Function.comp_apply, isNone_cell]

lemma cell_eq_some_iff {x : Slot k} {v : k.Value} : x.cell = some v ↔ x = (v, true) := by
  rcases x with ⟨w, _ | _⟩ <;> simp [cell]

end Slot

/-- The row with a number, or the error of reading past the end. -/
def rowAt (rows : List (Cell k)) (index : ℕ) : Except ColumnError (Cell k) :=
  if h : index < rows.length then .ok rows[index] else .error (.indexOutOfRange index rows.length)

lemma rowAt_eq_ok_iff {i : ℕ} {x : Cell k} : rowAt rows i = .ok x ↔ rows[i]? = some x := by
  rw [rowAt]
  split_ifs with h
  · simp [List.getElem?_eq_getElem h]
  · simp [List.getElem?_eq_none (not_lt.1 h)]

/-- Rows that are listed by their numbers. -/
lemma map_getD_range (rows : List (Cell k)) :
    (List.range rows.length).map (fun i => rows.getD i none) = rows :=
  List.ext_getElem (by simp) fun i _ hi => by simp [List.getElem?_eq_getElem hi]

namespace Container

variable {c d : Container k}

/-- The container has the options `o` and the rows of a list. -/
def Holds (o : Options) (c : Container k) (rows : List (Cell k)) : Prop :=
  ∃ s, c.Stores o s ∧ s.map Slot.cell = rows

lemma Stores.holds (h : c.Stores o s) : c.Holds o (s.map Slot.cell) := ⟨s, h, rfl⟩

/-- A well-formed container stores the slots of its chunks. -/
theorem WellFormed.stores (h : c.WellFormed) :
    c.Stores c.options (c.chunks.toList.flatMap Chunk.slots) := by
  have hcap := c.options.chunkCapacity_pos k
  have hwf : ∀ chunk ∈ c.chunks.toList, chunk.WellFormed c.chunkCapacity := by
    intro chunk hc
    have hmem := Array.mem_toList_iff.1 hc
    exact ⟨h.ceiling_eq chunk hmem, (h.len_bounds chunk hmem).2, h.len_validity chunk hmem,
      h.size_bytes chunk hmem, h.tail_clear chunk hmem⟩
  have hpacked : Packed c.chunkCapacity c.chunks.toList (c.chunks.toList.flatMap Chunk.slots) := by
    rcases List.eq_nil_or_concat' c.chunks.toList with hnil | ⟨full, last, hcons⟩
    · simpa [hnil] using packed_nil c.chunkCapacity
    · -- the chunks before the last one are those that have another one after them
      have hsize : c.chunks.size = full.length + 1 := by
        rw [← Array.length_toList, hcons, List.length_append, List.length_singleton]
      have hfull : ∀ chunk ∈ full, chunk.len = c.chunkCapacity := by
        intro chunk hc
        obtain ⟨i, hi, rfl⟩ := List.mem_iff_getElem.1 hc
        have hget : c.chunks[i] = full[i] := by
          rw [← Array.getElem_toList]
          simp only [hcons]
          exact List.getElem_append_left hi
        rw [← hget]
        exact h.len_of_lt i (by omega) (by omega)
      rw [hcons] at hwf ⊢
      have hlast : last ∈ c.chunks := Array.mem_toList_iff.1 (by simp [hcons])
      simpa using packed_concat hfull (fun chunk hc => hwf chunk (by simp [hc]))
        (hwf last (by simp)) (h.len_bounds last hlast).1
  refine ⟨rfl, hpacked, ?_, ?_⟩
  · rw [length_flatMap_slots, h.sum_len]
  · rw [h.nullCount_eq, ← hpacked.sum_nullCount]
    congr 1
    exact List.map_congr_left fun chunk _ => (Mask.nullCount_eq_countP chunk.validity).symm

/-- A well-formed container holds its rows. -/
theorem WellFormed.holds (h : c.WellFormed) : c.Holds c.options c.rows := by
  rw [h.stores.rows_eq]
  exact h.stores.holds

namespace Holds

lemma wellFormed (h : c.Holds o rows) : c.WellFormed := by
  obtain ⟨s, h, -⟩ := h
  exact h.wellFormed

lemma options_eq (h : c.Holds o rows) : c.options = o := by
  obtain ⟨s, h, -⟩ := h
  exact h.options_eq

lemma rows_eq (h : c.Holds o rows) : c.rows = rows := by
  obtain ⟨s, h, rfl⟩ := h
  exact h.rows_eq

lemma len_eq (h : c.Holds o rows) : c.len = rows.length := by
  obtain ⟨s, h, rfl⟩ := h
  rw [h.len_eq, List.length_map]

lemma nullCount_eq (h : c.Holds o rows) : c.nullCount = rows.countP Option.isNone := by
  obtain ⟨s, h, rfl⟩ := h
  rw [h.nullCount_eq, Slot.countP_isNone_map_cell]

lemma sizes_eq (h : c.Holds o rows) : c.sizes = chunkSizes (o.chunkCapacity k) rows.length := by
  rw [← h.len_eq]
  obtain ⟨s, h, rfl⟩ := h
  exact h.map_len

lemma get_eq (h : c.Holds o rows) (i : ℕ) : c.get i = rowAt rows i := by
  obtain ⟨s, h, rfl⟩ := h
  rw [rowAt]
  split_ifs with hi
  · rw [h.get_eq_ok (by simpa using hi), List.getElem_map]
  · rw [h.get_eq_error (by simpa using hi), List.length_map]

lemma get_eq_ok_iff (h : c.Holds o rows) {i : ℕ} {x : Cell k} :
    c.get i = .ok x ↔ rows[i]? = some x := by
  rw [h.get_eq, rowAt_eq_ok_iff]

lemma copy (h : c.Holds o rows) : c.copy.Holds o rows := by
  obtain ⟨s, h, rfl⟩ := h
  exact h.copy.holds

/-- Whether two containers can be paired is a matter of their options and numbers of rows. -/
lemma checkLayout_congr {left left' right right' : Container k} {o' : Options}
    {ys : List (Cell k)} (hl : left.Holds o rows) (hl' : left'.Holds o rows)
    (hr : right.Holds o' ys) (hr' : right'.Holds o' ys) :
    checkLayout left right = checkLayout left' right' := by
  have hdiff : firstDifference? left right = firstDifference? left' right' := by
    have hsize : ∀ c : Container k, c.chunks.size = c.sizes.length := by simp [sizes]
    simp only [firstDifference?, rowsInChunk_eq, hsize, hl.sizes_eq, hl'.sizes_eq, hr.sizes_eq,
      hr'.sizes_eq]
  simp only [checkLayout, hdiff, hl.len_eq, hl'.len_eq, hr.len_eq, hr'.len_eq, rowsInChunk_eq,
    hl.sizes_eq, hl'.sizes_eq, hr.sizes_eq, hr'.sizes_eq]

/-- Chunk by chunk, containers have the same rows if they have the same rows and equal layouts. -/
lemma map_rows_eq_iff (hc : c.Holds o rows) {o' : Options} {ys : List (Cell k)}
    (hd : d.Holds o' ys) : c.chunks.toList.map Chunk.rows = d.chunks.toList.map Chunk.rows ↔
      rows = ys ∧ c.sizes = d.sizes := by
  rw [List.eq_iff_flatten_eq, ← List.flatMap_def, ← List.flatMap_def, ← hc.rows_eq, ← hd.rows_eq,
    List.map_map, List.map_map, sizes, sizes]
  simp only [Function.comp_def, Chunk.length_rows]
  rfl

/-- Containers of equal layouts have as many rows. -/
lemma length_eq (hl : c.Holds o rows) {o' : Options} {ys : List (Cell k)} (hr : d.Holds o' ys)
    (heq : c.sizes = d.sizes) : rows.length = ys.length := by
  obtain ⟨s, hl, rfl⟩ := hl
  obtain ⟨t, hr, rfl⟩ := hr
  simpa using hl.length_eq hr heq

/-- Containers of equal layouts can be paired. -/
lemma checkLayout_of_sizes_eq (hl : c.Holds o rows) {o' : Options} {ys : List (Cell k)}
    (hr : d.Holds o' ys) (heq : c.sizes = d.sizes) : checkLayout c d = .ok () := by
  obtain ⟨s, hl, -⟩ := hl
  obtain ⟨t, hr, -⟩ := hr
  exact hl.checkLayout_eq_ok hr heq

/-- Containers of the same options and number of rows can be paired. -/
lemma checkLayout_eq_ok (hl : c.Holds o rows) {ys : List (Cell k)} (hr : d.Holds o ys)
    (hlen : rows.length = ys.length) : checkLayout c d = .ok () :=
  hl.checkLayout_of_sizes_eq hr (by rw [hl.sizes_eq, hr.sizes_eq, hlen])

/-- The values of the rows that have one are those that are read at some index. -/
lemma exists_get_iff (h : c.Holds o rows) {P : k.Value → Prop} :
    (∃ i v, c.get i = .ok (some v) ∧ P v) ↔ ∃ v, some v ∈ rows ∧ P v := by
  simp only [h.get_eq_ok_iff, List.mem_iff_getElem?]
  constructor
  · rintro ⟨i, v, hi, hP⟩
    exact ⟨v, ⟨i, hi⟩, hP⟩
  · rintro ⟨v, ⟨i, hi⟩, hP⟩
    exact ⟨i, v, hi, hP⟩

end Holds

/-! ### Storage operations -/

lemma refines_of_yields {m : Edit (Container k) Unit} {t : List (Slot k)} (hd : m.Yields c () d)
    (hstores : d.Stores o t) (ht : t.map Slot.cell = rows) : m.Refines c (Holds o) (.ok rows) :=
  ⟨d, hd, t, hstores, ht⟩

/-- A storage operation refines the one on lists of rows. -/
theorem refines_storage (op : StorageOp k) (h : c.Holds o rows) :
    op.run.Refines c (Holds o) ((op.verdict rows).map fun _ => op.onRows rows) := by
  obtain ⟨s, h, rfl⟩ := h
  cases op with
  | append cell =>
    obtain ⟨d, hd, hstores⟩ := yields_append h cell
    exact refines_of_yields hd hstores (by simp [StorageOp.onRows])
  | appendMany cell count =>
    obtain ⟨d, hd, hstores⟩ := yields_appendMany h cell count
    exact refines_of_yields hd hstores (by simp [StorageOp.onRows])
  | set index cell =>
    rw [StorageOp.verdict, List.length_map]
    split_ifs with hlt
    · obtain ⟨d, hd, hstores⟩ := yields_set h hlt cell
      exact refines_of_yields hd hstores (by simp [StorageOp.onRows, List.map_set])
    · exact refuses_set h (by omega) cell
  | resize newLen =>
    obtain ⟨d, hd, hstores⟩ := yields_resize h newLen
    exact refines_of_yields hd hstores
      (by simp [StorageOp.onRows, List.map_take, Slot.null, Slot.cell])
  | fillNulls v =>
    refine refines_of_yields (Edit.yields_updates _ c) (h.fillNulls v) ?_
    rw [StorageOp.onRows, List.map_map, List.map_map]
    refine List.map_congr_left fun x _ => ?_
    rcases x with ⟨w, _ | _⟩ <;> rfl
  | apply f =>
    obtain ⟨d, hd, hstores⟩ := yields_applyInPlace h f
    exact refines_of_yields hd hstores (by simp [StorageOp.onRows, Function.comp_def])

/-- Clamping changes the rows that have a value. -/
lemma refines_clip (h : c.Holds o rows) (lower upper : k.Value) :
    (Edit.updates (clip lower upper)).Refines c (Holds o)
      (.ok (rows.map (Option.map (clamp lower upper)))) := by
  obtain ⟨s, h, rfl⟩ := h
  refine refines_of_yields (Edit.yields_updates _ c) (h.clip lower upper) ?_
  rw [List.map_map, List.map_map]
  refine List.map_congr_left fun x _ => ?_
  rcases x with ⟨w, _ | _⟩ <;> rfl

end Container

end Columnar
