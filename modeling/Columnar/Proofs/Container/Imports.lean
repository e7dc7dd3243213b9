import Columnar.Proofs.Arrow.Layout
import Columnar.Proofs.Container.RawBytes
import Columnar.Arrow.Exchange
/-!
# Importing what was exported

The buffer and the bitmap of a chunk are imported as raw bytes, and its array as a whole or sliced.
Either way the rows are those of the chunk, in chunks of the capacity that is asked for; what is
stored beneath nulls is not looked at. Imports made one after the other have the rows of all.
-/

namespace Columnar

variable {k : Kind} {cap : ℕ} {o : Options} {chunk : Chunk k}

namespace Container

/-! ### Raw bytes -/

/-- The container imported from the buffer and the bitmap that a view refers to. -/
def ofView (v : View k) (o : Options) : Traced (Container k) :=
  ofRawBytes v.valueBytes.toArray v.validity v.len o

/-- What is exported of a whole chunk is imported as its rows. -/
theorem refines_ofView (hc : chunk.WellFormed cap) (o : Options) :
    (ofView (View.ofChunk chunk 0 chunk.len) o).Refines (Holds o) (.ok chunk.rows) := by
  have hvalues : chunk.len * k.width
      ≤ (View.ofChunk chunk 0 chunk.len).valueBytes.toArray.size := by
    rw [List.size_toArray, View.valueBytes, Kind.Value.length_flatMap_toBytes]
    exact (congrArg (· * k.width) chunk.length_values).ge
  have hbitmap : Mask.byteCount chunk.len ≤ chunk.validity.bytes.size := by
    rw [hc.validity.size_bytes, hc.len_validity]
  have hsuffices : Suffices k (View.ofChunk chunk 0 chunk.len).valueBytes.toArray
      (some chunk.validity.bytes) chunk.len :=
    ⟨hvalues, fun bitmap hbytes => Option.some.inj hbytes ▸ hbitmap⟩
  refine (refines_ofRows chunk.rows o).of_result_eq ?_
  refine (congrArg Traced.result (hsuffices.ofRawBytes_eq o)).trans ?_
  congr 2
  -- both lists of rows are read by index; the values agree where the flag is set
  rw [Chunk.rows_eq_map_row]
  refine List.map_congr_left fun i hi => ?_
  rw [List.mem_range] at hi
  have hi' : i < chunk.values.values.toList.length := chunk.length_values ▸ hi
  rw [hsuffices.rawRow_eq hi, Chunk.row_eq_ite chunk hi', hasValue, Option.all_some,
    Mask.isValid_eq_bitOf]
  congr 2
  exact Kind.Value.ofBytes_extract _ hi'

/-! ### Arrays -/

/-- An array of the type of the kind is imported as its rows. -/
lemma refines_ofArrow {a : ArrowArray} (htype : a.type = k.arrowType) (o : Options) :
    (ofArrow a o : Traced (Container k)).Refines (Holds o) (.ok (a.cells k)) := by
  refine (refines_ofRows (a.cells k) o).of_result_eq ?_
  have hsame : ¬ (a.type != k.arrowType) = true := by simp [htype]
  simp only [ofArrow, if_neg hsame]

lemma toArrow_eq_map (c : Container k) : c.toArrow = c.chunks.toList.map Chunk.toArrow := rfl

end Container

/-- The array carries the rows of a chunk, whatever slice of it is imported. -/
structure ArrowArray.Carries (a : ArrowArray) (chunk : Chunk k) : Prop where
  wellFormed : a.WellFormed
  type_eq : a.type = k.arrowType
  len_eq : a.len = chunk.len
  /-- There is a bitmap exactly if there is a null. -/
  isSome_validity_iff : a.validity.isSome ↔ none ∈ chunk.rows
  slice : ∀ offset count, offset + count ≤ a.len → ∀ o : Options,
    ∃ d : Container k, (Container.ofArrow (a.slice offset count) o).result = .ok d ∧
      d.options = o ∧ d.rows = (chunk.rows.drop offset).take count

/-- The array of a chunk carries its rows. -/
lemma Chunk.WellFormed.carries_toArrow (hc : chunk.WellFormed cap) :
    chunk.toArrow.Carries chunk := by
  refine ⟨chunk.wellFormed_toArrow hc, rfl, chunk.length_values, ?_, fun offset count h o => ?_⟩
  · rw [chunk.validity_toArrow, ← Chunk.nullCount_pos_iff hc]
    split_ifs with hnull <;> simp [hnull]
  · obtain ⟨d, hd, hholds⟩ :=
      Container.refines_ofArrow (k := k) (a := chunk.toArrow.slice offset count) rfl o
    rw [ArrowArray.cells_slice h, Chunk.cells_toArrow hc] at hholds
    exact ⟨d, hd, hholds.options_eq, hholds.rows_eq⟩

/-! ### One import after the other -/

namespace Container

/-- The rows of containers one after the other. -/
lemma flatMap_rows_of_forall₂ {ds : List (Container k)} {rows : List (List (Cell k))}
    (h : List.Forall₂ (Holds o) ds rows) : ds.flatMap Container.rows = rows.flatten := by
  induction h with
  | nil => rfl
  | cons hd _ ih => rw [List.flatMap_cons, List.flatten_cons, hd.rows_eq, ih]

/-- If each chunk of a container is imported as its rows, all of them are imported as the rows of
the container. -/
lemma exists_mapM_rows {ι : Type} {c : Container k} {f : ι → Traced (Container k)}
    {exported : Chunk k → ι}
    (h : ∀ chunk ∈ c.chunks.toList, (f (exported chunk)).Refines (Holds o) (.ok chunk.rows)) :
    ∃ ds, (c.chunks.toList.map exported).mapM (fun x => (f x).result) = .ok ds ∧
      ds.flatMap Container.rows = c.rows := by
  obtain ⟨ds, hds, hall⟩ := Traced.Refines.exists_mapM h
  refine ⟨ds, ?_, flatMap_rows_of_forall₂ hall⟩
  rw [List.mapM_map]
  exact hds

end Container

end Columnar
