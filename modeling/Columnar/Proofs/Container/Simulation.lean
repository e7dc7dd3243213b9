import Columnar.Proofs.Container.Update
/-!
# Containers as lists of rows

The storage operations on a container do what the operations of the same names do on a list of
rows. A container that is filled and changed by them, in whatever order and whether or not some of
them fail, is the container that is built from the resulting list at once: there is one container
for a list of rows, up to the sizes of its allocations.
-/

namespace Columnar

/-- The operations that store rows. -/
inductive StorageOp (k : Kind) where
  | append (cell : Cell k)
  | appendMany (cell : Cell k) (count : ℕ)
  | set (index : ℕ) (cell : Cell k)
  | resize (newLen : ℕ)
  | fillNulls (v : k.Value)
  | apply (f : Cell k → Cell k)

namespace StorageOp

variable {k : Kind} {o : Options} {rows : List (Cell k)} {c : Container k}

/-- The operation on a container. -/
def run : StorageOp k → Edit (Container k) Unit
  | append cell => Container.append cell
  | appendMany cell count => Container.appendMany cell count
  | set index cell => Container.set index cell
  | resize newLen => Container.resize newLen
  | fillNulls v => Edit.updates (Container.fillNulls v)
  | apply f => Container.applyInPlace f

/-- The operation on a list of rows. A row that is not there is not replaced. -/
def onRows : StorageOp k → List (Cell k) → List (Cell k)
  | append cell, rows => rows ++ [cell]
  | appendMany cell count, rows => rows ++ List.replicate count cell
  | set index cell, rows => rows.set index cell
  | resize newLen, rows => rows.take newLen ++ List.replicate (newLen - rows.length) none
  | fillNulls v, rows => rows.map fun cell => some (cell.getD v)
  | apply f, rows => rows.map f

/-- How the operation ends: it fails if its index is not that of a row. -/
def verdict : StorageOp k → List (Cell k) → Except ColumnError Unit
  | set index _, rows =>
    if index < rows.length then .ok () else .error (.indexOutOfRange index rows.length)
  | _, _ => .ok ()

/-- The container after a list of operations, each of them carried out on what the ones before it
left behind. -/
def runAll (o : Options) (ops : List (StorageOp k)) : Container k :=
  ops.foldl (fun c op => (op.run c).state) (.empty o)

/-- The rows after a list of operations. -/
def rowsAfter (ops : List (StorageOp k)) : List (Cell k) :=
  ops.foldl (fun rows op => op.onRows rows) []

/-- An operation that succeeds with the right slots has the right outcome. -/
lemma simulates_of_yields {op : StorageOp k} {d : Container k} (hd : op.run.Yields c () d)
    (hstores : d.Stores o ((op.onRows rows).map Cell.slot)) (hverdict : op.verdict rows = .ok ()) :
    (op.run c).result = op.verdict rows ∧
      (op.run c).state.Stores o ((op.onRows rows).map Cell.slot) := by
  rw [hd.result, hd.state, hverdict]
  exact ⟨rfl, hstores⟩

/-- One operation on a container that stores the rows of a list is the operation on the list. -/
theorem simulates (op : StorageOp k) (h : c.Stores o (rows.map Cell.slot)) :
    (op.run c).result = op.verdict rows ∧
      (op.run c).state.Stores o ((op.onRows rows).map Cell.slot) := by
  cases op with
  | append cell =>
    obtain ⟨d, hd, hstores⟩ := Container.yields_append h cell
    exact simulates_of_yields hd (by simpa [onRows] using hstores) rfl
  | appendMany cell count =>
    obtain ⟨d, hd, hstores⟩ := Container.yields_appendMany h cell count
    exact simulates_of_yields hd (by simpa [onRows] using hstores) rfl
  | set index cell =>
    rcases Nat.lt_or_ge index rows.length with hlt | hge
    · obtain ⟨d, hd, hstores⟩ := Container.yields_set h (by simpa using hlt) cell
      exact simulates_of_yields hd (by simpa [onRows, List.map_set] using hstores)
        (by simp [verdict, hlt])
    · -- there is no such row, and the list stays as it is as well
      have hrefuses := Container.refuses_set h (by simpa using hge) cell
      rw [List.length_map] at hrefuses
      rw [run, hrefuses.result, hrefuses.state, onRows, List.set_eq_of_length_le hge, verdict,
        if_neg (by omega)]
      exact ⟨rfl, h⟩
  | resize newLen =>
    obtain ⟨d, hd, hstores⟩ := Container.yields_resize h newLen
    exact simulates_of_yields hd (by simpa [onRows, List.map_take] using hstores) rfl
  | fillNulls v =>
    have hslots : ∀ cell : Cell k, (Cell.slot (some (cell.getD v)))
        = (if cell.slot.2 then cell.slot.1 else v, true) := by
      intro cell
      cases cell <;> rfl
    refine simulates_of_yields (Edit.yields_updates _ c) ?_ rfl
    simpa [onRows, Function.comp_def, hslots] using h.fillNulls v
  | apply f =>
    obtain ⟨d, hd, hstores⟩ := Container.yields_applyInPlace h f
    exact simulates_of_yields hd (by simpa [onRows, Function.comp_def] using hstores) rfl

/-- What a list of operations stores, by induction on the list from its end. -/
theorem stores_runAll (o : Options) (ops : List (StorageOp k)) :
    (runAll o ops).Stores o ((rowsAfter ops).map Cell.slot) := by
  induction ops using List.reverseRecOn with
  | nil => exact Container.stores_empty o
  | append_singleton ops op ih =>
    simp only [runAll, rowsAfter, List.foldl_concat]
    exact (op.simulates ih).2

/-- After any list of storage operations, the container is that of the rows in the list, allocation
sizes aside; the next operation fails exactly when its index is not that of a row; and every way to
read a row gives the row in the list. -/
theorem runAll_eq_ofRows (o : Options) (ops : List (StorageOp k)) :
    (∃ d : Container k, (Container.ofRows (rowsAfter ops) o).result = .ok d ∧
      (runAll o ops).chunks.toList.map (fun chunk => (chunk.values.values, chunk.validity))
        = d.chunks.toList.map (fun chunk => (chunk.values.values, chunk.validity)) ∧
      (runAll o ops).len = d.len ∧ (runAll o ops).nullCount = d.nullCount ∧
      (runAll o ops).options = d.options) ∧
    (∀ op : StorageOp k, (op.run (runAll o ops)).result = op.verdict (rowsAfter ops)) ∧
    (runAll o ops).len = (rowsAfter ops).length ∧
    ∀ i (h : i < (rowsAfter ops).length),
      (runAll o ops).get i = .ok (rowsAfter ops)[i] ∧
      (runAll o ops).isValid i = .ok (rowsAfter ops)[i].isSome ∧
      (runAll o ops).rows[i]? = some (rowsAfter ops)[i] := by
  have h := stores_runAll o ops
  obtain ⟨d, hd, hstores⟩ := Container.result_ofRows (rowsAfter ops) o
  refine ⟨⟨d, hd, h.contents_unique hstores⟩, fun op => (op.simulates h).1, ?_, fun i hi => ?_⟩
  · rw [h.len_eq, List.length_map]
  · have hi' : i < ((rowsAfter ops).map Cell.slot).length := by simpa using hi
    refine ⟨?_, ?_, ?_⟩
    · rw [h.get_eq_ok hi', List.getElem_map, Cell.cell_slot]
    · rw [h.isValid_eq_ok hi', List.getElem_map]
      rfl
    · rw [h.rows_eq, List.map_map, List.getElem?_map, List.getElem?_eq_getElem hi]
      simp

end StorageOp

end Columnar
