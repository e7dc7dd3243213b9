import Columnar.Proofs.Column.Rows
import Columnar.Proofs.Container.Imports
/-!
# Columns that are exported and imported again

A column is given away as views of its chunks or as arrays, and taken back from raw bytes or from
arrays. Views show exactly the rows they are asked for. What is exported chunk by chunk is imported
again with the same rows, under any options, for every kind: neither the width of the words, nor
what is stored beneath nulls, nor a bitmap that was left out makes a difference.
-/

namespace Columnar.Column

variable {k : Kind} {c : Column k}

/-- The chunks of a reachable column are well-formed. -/
lemma Reachable.wellFormed_of_mem (h : c.Reachable) {chunk : Chunk k}
    (hc : chunk ∈ c.container.chunks.toList) :
    chunk.WellFormed (c.options.chunkCapacity k) := by
  obtain ⟨s, hstores, -⟩ := h.holds.2
  exact hstores.packed.wellFormed chunk hc

/-! ### Views -/

/-- **Exported ranges are exact.** A range of no rows is exported as the empty view. Any other range
of a reachable column is refused exactly if it ends past the end of the column, or else in another
chunk than it begins in; and if it is not refused, its view has the rows and the nulls of the range.
The views of all chunks have the rows and the nulls of the column. -/
theorem Reachable.exports_exact (h : c.Reachable) :
    (∀ start count, c.container.ExportsRange start count) ∧
      c.container.exportChunks.flatMap View.rows = c.container.rows ∧
      (c.container.exportChunks.map View.nullCount).sum = c.container.nullCount := by
  obtain ⟨s, hstores, -⟩ := h.holds.2
  exact ⟨hstores.exportsRange, c.container.flatMap_rows_exportChunks,
    h.holds.2.sum_nullCount_exportChunks⟩

/-- Five rows in chunks of three: the last chunk is not full. -/
theorem exports_exact_of_five_rows : ∃ c : Column .int32,
    (ofRows "a" [some 1, none, some 3, none, some 5] (.withChunkRows .int32 3)).result = .ok c ∧
      (∀ start count, c.container.ExportsRange start count) ∧
      c.container.exportChunks.flatMap View.rows = c.container.rows ∧
      (c.container.exportChunks.map View.nullCount).sum = c.container.nullCount :=
  ⟨_, rfl, Reachable.exports_exact
    (.ofRows "a" [some 1, none, some 3, none, some 5] (.withChunkRows .int32 3) rfl)⟩

/-! ### Raw bytes -/

/-- **Raw bytes are imported as what was exported.** The buffer and the bitmap of the view of a
chunk of a reachable column are imported under any options, as the rows of the view in chunks of the
capacity of these options. All chunks imported in order have the rows of the column. -/
theorem Reachable.imports_exports (h : c.Reachable) (o : Options) :
    (∀ v ∈ c.container.exportChunks, ∃ d, (Container.ofView v o).result = .ok d ∧
      d.options = o ∧ d.rows = v.rows ∧ d.sizes = chunkSizes (o.chunkCapacity k) v.len) ∧
    ∃ ds, c.container.exportChunks.mapM (fun v => (Container.ofView v o).result) = .ok ds ∧
      ds.flatMap Container.rows = c.container.rows := by
  have hrefines : ∀ chunk ∈ c.container.chunks.toList,
      (Container.ofView (View.ofChunk chunk 0 chunk.len) o).Refines (Container.Holds o)
        (.ok chunk.rows) := fun chunk hc =>
    Container.refines_ofView (h.wellFormed_of_mem hc) o
  refine ⟨fun v hv => ?_, Container.exists_mapM_rows hrefines⟩
  obtain ⟨chunk, hc, rfl⟩ := List.mem_map.1 hv
  obtain ⟨d, hd, hholds⟩ := hrefines chunk hc
  refine ⟨d, hd, hholds.options_eq, ?_, ?_⟩
  · rw [hholds.rows_eq, View.rows_ofChunk_self]
  · rw [hholds.sizes_eq, Chunk.length_rows]
    rfl

/-- Decimals, one of them negative and one beneath a null, exported in chunks of two and imported
in chunks of one. -/
theorem imports_exports_of_decimals : ∃ c : Column .decimal,
    (ofRows "a" [some Decimal.min, some Decimal.one, none] (.withChunkRows .decimal 2)).result
        = .ok c ∧
      (∀ v ∈ c.container.exportChunks,
        ∃ d, (Container.ofView v (.withChunkRows .decimal 1)).result = .ok d ∧
          d.options = .withChunkRows .decimal 1 ∧ d.rows = v.rows ∧
          d.sizes = chunkSizes ((Options.withChunkRows .decimal 1).chunkCapacity .decimal) v.len) ∧
      ∃ ds, c.container.exportChunks.mapM
          (fun v => (Container.ofView v (.withChunkRows .decimal 1)).result) = .ok ds ∧
        ds.flatMap Container.rows = c.container.rows :=
  ⟨_, rfl, Reachable.imports_exports
    (.ofRows "a" [some Decimal.min, some Decimal.one, none] (.withChunkRows .decimal 2) rfl)
    (.withChunkRows .decimal 1)⟩

/-! ### Arrays -/

/-- **Arrays carry the rows of their chunks.** A reachable column is exported as one array for each
chunk, in order. Each array is well-formed, has the type of the kind and a bitmap exactly if the
chunk has a null, and every slice of it is imported under any options as the rows of the range. All
arrays imported in order have the rows of the column. -/
theorem Reachable.arrays_carry_rows (h : c.Reachable) :
    List.Forall₂ ArrowArray.Carries c.toArrow c.container.chunks.toList ∧
    ∀ o : Options, ∃ ds : List (Container k),
      c.toArrow.mapM (fun a => (Container.ofArrow a o).result) = .ok ds ∧
        ds.flatMap Container.rows = c.rows := by
  constructor
  · rw [toArrow, Container.toArrow_eq_map, List.forall₂_map_left_iff, List.forall₂_same]
    exact fun chunk hc => (h.wellFormed_of_mem hc).carries_toArrow
  · intro o
    refine Container.exists_mapM_rows (o := o) fun chunk hc => ?_
    rw [← chunk.cells_toArrow (h.wellFormed_of_mem hc)]
    exact Container.refines_ofArrow rfl o

/-- Booleans in two chunks, of which only the first has a null. -/
theorem arrays_carry_rows_of_booleans : ∃ c : Column .bool,
    (ofRows "a" [some true, none, some false, some true] (.withChunkRows .bool 3)).result = .ok c ∧
      List.Forall₂ ArrowArray.Carries c.toArrow c.container.chunks.toList ∧
      ∀ o : Options, ∃ ds : List (Container .bool),
        c.toArrow.mapM (fun a => (Container.ofArrow a o).result) = .ok ds ∧
          ds.flatMap Container.rows = c.rows :=
  ⟨_, rfl, Reachable.arrays_carry_rows
    (.ofRows "a" [some true, none, some false, some true] (.withChunkRows .bool 3) rfl)⟩

end Columnar.Column
