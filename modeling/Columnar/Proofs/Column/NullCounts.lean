import Columnar.Proofs.Column.InPlace
import Columnar.Proofs.Mask.Scan
/-!
# Counts of nulls

However a mask was made, and in every chunk of every column, counting the nulls of a range finds
exactly the indices at which a null is read. When a column is cut, the nulls of its tail are counted
in this way, chunk by chunk, and taken from its null count: what they are taken from is never too
small, and what is left are the nulls of the rows that are kept.
-/

namespace Columnar

variable {k : Kind}

namespace Container

variable {o : Options} {s : List (Slot k)} {c : Container k}

/-- The masks of the chunks count their nulls. -/
lemma Stores.countsNulls (h : c.Stores o s) :
    ∀ chunk ∈ c.chunks.toList, chunk.validity.CountsNulls := fun chunk hchunk =>
  (h.packed.wellFormed chunk hchunk).validity.countsNulls

/-- The nulls that are counted when rows are dropped are among those rows. -/
lemma Stores.nullsFrom_eq_rows (h : c.Stores o s) {len : ℕ} (hlen : len < s.length) :
    c.nullsFrom len = (c.rows.drop len).countP Option.isNone := by
  rw [h.nullsFrom_eq_countP hlen, h.rows_eq, ← List.map_drop, Slot.countP_isNone_map_cell]

end Container

namespace Column

/-- The column `d` is what is left of the column `c` when its rows from `len` on are dropped. -/
structure CutsNulls (c d : Column k) (len : ℕ) : Prop where
  rows_eq : d.rows = c.rows.take len
  /-- The nulls that are taken from the count are those of the rows that are dropped. -/
  dropped : c.container.nullsFrom len = (c.rows.drop len).countP Option.isNone
  /-- Those that are left are those of the rows that are kept. -/
  kept : d.nullCount = (c.rows.take len).countP Option.isNone
  total : c.container.nullsFrom len + d.nullCount = c.nullCount

/-- Fewer rows than there are can always be kept. -/
lemma Reachable.exists_cutsNulls {c : Column k} (h : c.Reachable) {len : ℕ} (hlen : len < c.len) :
    ∃ d, (resize len).Yields c () d ∧ c.CutsNulls d len := by
  obtain ⟨o, s, hstores⟩ := h.sound
  have hslots : len < s.length := hstores.len_eq ▸ hlen
  have hcut := (hstores.truncate hslots).holds
  have hrows := hstores.rows_eq
  have hdropped := hstores.nullsFrom_eq_rows hslots
  have hkept : (c.container.truncate len).nullCount = (c.rows.take len).countP Option.isNone := by
    rw [hcut.nullCount_eq, rows, hrows, List.map_take]
  have hyields : (Container.resize len).Yields c.container () (c.container.truncate len) :=
    ⟨#[], if_neg (Nat.not_le.2 hlen)⟩
  refine ⟨_, yields_onContainer hyields, ?_, hdropped, hkept, ?_⟩
  · rw [rows, hcut.rows_eq, List.map_take, ← hrows]
    rfl
  · show c.container.nullsFrom len + (c.container.truncate len).nullCount = c.nullCount
    rw [hdropped, hkept, rows, Nat.add_comm, ← List.countP_append, List.take_append_drop,
      nullCount, h.holds.2.nullCount_eq]
    rfl

/-- **Nulls are counted exactly.** A mask made by operations within their bounds counts the nulls of
any of its ranges, and so do the masks of the chunks of every column. When rows are dropped, the
nulls that are taken from the count and those that are left add up to all nulls of the column. -/
theorem nulls_counted (k : Kind) :
    (∀ h : Mask.History, h.InBounds → ∃ m, h.run = some m ∧ m.CountsNulls) ∧
    ∀ c : Column k, c.Reachable →
      (∀ chunk ∈ c.container.chunks.toList, chunk.validity.CountsNulls) ∧
      ∀ len < c.len, ∃ d, (resize len).Yields c () d ∧ c.CutsNulls d len := by
  constructor
  · intro h hin
    exact ⟨_, Mask.History.run_eq_pack hin, (Mask.wellFormed_pack h.flags).countsNulls⟩
  · intro c hc
    obtain ⟨o, s, hstores⟩ := hc.sound
    exact ⟨hstores.countsNulls, fun len hlen => hc.exists_cutsNulls hlen⟩

/-- A mask of thirteen flags, cut to eleven, and five rows in chunks of two, cut to three. -/
theorem nulls_counted_of_cut :
    (∃ m, (Mask.History.truncate (.extend (.push .new false) true 12) 11).run = some m ∧
      m.CountsNulls) ∧
    ∃ c d : Column .int32,
      (ofRows "a" [none, some 2, none, none, some 5] (.withChunkRows .int32 2)).result = .ok c ∧
        3 < c.len ∧ (resize 3).Yields c () d ∧ c.CutsNulls d 3 ∧ d.nullCount = 2 := by
  refine ⟨(nulls_counted .int32).1 _ (by decide), ?_⟩
  obtain ⟨c, hc⟩ : ∃ c : Column .int32,
    (ofRows "a" [none, some 2, none, none, some 5] (.withChunkRows .int32 2)).result = .ok c :=
    ⟨_, rfl⟩
  have hreachable : c.Reachable := .ofRows "a" _ (.withChunkRows .int32 2) hc
  have hlen : 3 < c.len := by
    cases hc
    decide
  have hkept : (c.rows.take 3).countP Option.isNone = 2 := by
    cases hc
    decide
  obtain ⟨d, hd, hcut⟩ := ((nulls_counted .int32).2 c hreachable).2 3 hlen
  exact ⟨c, d, hc, hlen, hd, hcut, hcut.kept.trans hkept⟩

end Column

end Columnar
