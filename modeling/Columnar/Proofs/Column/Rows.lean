import Columnar.Proofs.Column.Reachable
import Columnar.Proofs.Container.Derived
/-!
# Columns as lists of rows

The operations on columns refine operations on lists of rows: each is legal or not for the kind,
may then be refused for what its operands are, and otherwise gives a column of certain rows under
the name and options of the column it was applied to. The forms that change a column and those that
give a new one refine the same specification.
-/

namespace Columnar.Column

variable {k l : Kind} {name : String} {o o' : Options} {rows xs ys : List (Cell k)}
  {c d other : Column k}

/-- The rows of a list with one more are its rows and the last one. -/
lemma getElem?_concat_eq_some_iff {i : ℕ} {x y : Cell k} :
    (rows ++ [x])[i]? = some y ↔ rows[i]? = some y ∨ i = rows.length ∧ x = y := by
  rcases Nat.lt_or_ge i rows.length with hlt | hge
  · rw [List.getElem?_append_left hlt]
    exact (or_iff_left fun h => hlt.ne h.1).symm
  · have hlast : i - rows.length = 0 ↔ i = rows.length := by omega
    rw [List.getElem?_append_right hge, List.getElem?_eq_none hge, List.getElem?_singleton]
    simp [hlast]

/-- The column has a name, the options `o` and the rows of a list. -/
def Holds (name : String) (o : Options) (c : Column k) (rows : List (Cell k)) : Prop :=
  c.name = name ∧ c.container.Holds o rows

lemma holds_of_wellFormed (h : c.container.WellFormed) : c.Holds c.name c.options c.rows :=
  ⟨rfl, h.holds⟩

lemma Reachable.holds (h : c.Reachable) : c.Holds c.name c.options c.rows := by
  obtain ⟨o, s, hstores⟩ := h.sound
  exact holds_of_wellFormed hstores.wellFormed

namespace Holds

lemma rows_eq (h : c.Holds name o rows) : c.rows = rows := h.2.rows_eq

lemma len_eq (h : c.Holds name o rows) : c.len = rows.length := h.2.len_eq

lemma get_eq_ok_iff (h : c.Holds name o rows) {i : ℕ} {x : Cell k} :
    c.get i = .ok x ↔ rows[i]? = some x := h.2.get_eq_ok_iff

lemma copy (h : c.Holds name o rows) : c.copy.Holds name o rows := ⟨h.1, h.2.copy⟩

end Holds

/-! ### Changes in place -/

lemma refines_onContainer {m : Edit (Container k) Unit} {spec : Except ColumnError (List (Cell k))}
    (h : c.Holds name o rows) (hm : m.Refines c.container (Container.Holds o) spec) :
    (onContainer m).Refines c (Holds name o) spec :=
  hm.within rfl fun _ _ hpart => ⟨h.1, hpart⟩

/-- A check that is made twice is as good as one. -/
lemma check_bind_check {α : Type} (op : Operator) (spec : Unit → Except ColumnError α) :
    (check k op >>= fun _ => check k op >>= spec) = check k op >>= spec := by
  rcases check k op with e | u <;> rfl

theorem refines_binaryInPlace (h : c.Holds name o xs) (h' : other.container.Holds o' ys)
    (op : BinaryOp) : (binaryInPlace op other).Refines c (Holds name o) (do
      check k (.binary op)
      Container.checkLayout c.container other.container
      op.onPairs (xs.zip ys)) := by
  rw [← check_bind_check]
  exact Edit.Refines.ofExcept_bind fun _ _ =>
    refines_onContainer h (Container.refines_binary h.2 h' op)

theorem refines_binaryScalarInPlace (h : c.Holds name o rows) (op : BinaryOp) (scalar : k.Value)
    (reverse : Bool) : (binaryScalarInPlace op scalar reverse).Refines c (Holds name o) (do
      check k (.binary op)
      op.onPairs (rows.map (BinaryOp.beside scalar reverse))) := by
  rw [← check_bind_check]
  exact Edit.Refines.ofExcept_bind fun _ _ =>
    refines_onContainer h (Container.refines_binaryScalar h.2 op scalar reverse)

theorem refines_shiftInPlace (h : c.Holds name o rows) (op : ShiftOp) (amount : Int32) :
    (shiftInPlace op amount).Refines c (Holds name o) (do
      check k (.shift op)
      rows.mapM (op.onCell amount)) := by
  rw [← check_bind_check]
  exact Edit.Refines.ofExcept_bind fun _ _ =>
    refines_onContainer h (Container.refines_shift h.2 op amount)

theorem refines_clipInPlace (h : c.Holds name o rows) (lower upper : k.Value) :
    (clipInPlace lower upper).Refines c (Holds name o) (do
      check k (.comparison .greaterOrEqual)
      return rows.map (Option.map (Container.clamp lower upper))) :=
  Edit.Refines.ofExcept_bind fun _ _ =>
    refines_onContainer h (Container.refines_clip h.2 lower upper)

theorem refines_fillNullsInPlace (h : c.Holds name o rows) (v : k.Value) :
    (fillNullsInPlace v).Refines c (Holds name o) (.ok (rows.map fun cell => some (cell.getD v))) :=
  refines_onContainer h (Container.refines_storage (.fillNulls v) h.2)

/-! ### New columns from operators -/

/-- A change is made to a copy. -/
lemma refines_runOn_copy {m : Edit (Column k) Unit} {op : Operator}
    {spec : Unit → Except ColumnError (List (Cell k))}
    (hm : m.Refines c.copy (Holds name o) (check k op >>= spec)) :
    (Traced.ofExcept (check k op) >>= fun _ => m.runOn c.copy).Refines (Holds name o)
      (check k op >>= spec) := by
  rw [← check_bind_check]
  exact Traced.Refines.ofExcept_bind fun _ _ => hm.runOn

theorem refines_binary (h : c.Holds name o xs) (h' : other.container.Holds o' ys) (op : BinaryOp) :
    (c.binary op other).Refines (Holds name o) (do
      check k (.binary op)
      Container.checkLayout c.container other.container
      op.onPairs (xs.zip ys)) := by
  rw [h.2.checkLayout_congr h.copy.2 h' h']
  exact refines_runOn_copy (refines_binaryInPlace h.copy h' op)

theorem refines_binaryScalar (h : c.Holds name o rows) (op : BinaryOp) (scalar : k.Value)
    (reverse : Bool) : (c.binaryScalar op scalar reverse).Refines (Holds name o) (do
      check k (.binary op)
      op.onPairs (rows.map (BinaryOp.beside scalar reverse))) :=
  refines_runOn_copy (refines_binaryScalarInPlace h.copy op scalar reverse)

theorem refines_shift (h : c.Holds name o rows) (op : ShiftOp) (amount : Int32) :
    (c.shift op amount).Refines (Holds name o) (do
      check k (.shift op)
      rows.mapM (op.onCell amount)) :=
  refines_runOn_copy (refines_shiftInPlace h.copy op amount)

theorem refines_clip (h : c.Holds name o rows) (lower upper : k.Value) :
    (c.clip lower upper).Refines (Holds name o) (do
      check k (.comparison .greaterOrEqual)
      return rows.map (Option.map (Container.clamp lower upper))) :=
  (refines_clipInPlace h.copy lower upper).runOn

theorem refines_fillNulls (h : c.Holds name o rows) (v : k.Value) :
    (c.fillNulls v).Refines (Holds name o) (.ok (rows.map fun cell => some (cell.getD v))) :=
  (refines_fillNullsInPlace h.copy v).runOn

/-! ### Columns built from rows -/

lemma refines_ofRows (name : String) (rows : List (Cell k)) (o : Options) :
    (ofRows name rows o).Refines (Holds name o) (.ok rows) :=
  (Container.refines_ofRows rows o).map fun _ _ h => ⟨rfl, h⟩

theorem refines_compare (h : c.Holds name o xs) (h' : other.container.Holds o' ys)
    (op : Comparison) : (c.compare op other).Refines (Holds name o) (do
      check k (.comparison op)
      Container.checkLayout c.container other.container
      return List.zipWith (Container.compareCells op) xs ys) :=
  (Container.refines_compare h.2 h' op).map fun _ _ hd => ⟨h.1, hd⟩

theorem refines_compareScalar (h : c.Holds name o rows) (op : Comparison) (scalar : k.Value) :
    (c.compareScalar op scalar).Refines (Holds name o) (do
      check k (.comparison op)
      return rows.map fun cell => Container.compareCells op cell (some scalar)) :=
  (Container.refines_compareScalar h.2 op scalar).map fun _ _ hd => ⟨h.1, hd⟩

theorem refines_select (h : c.Holds name o rows) (map : Array ℕ) (invert : Bool) :
    (c.select map invert).Refines (Holds name o)
      (Container.selectRows rows map.size invert fun position => .ok map[position]?) :=
  (Container.refines_selectBy h.2 _ invert _).map fun _ _ hd => ⟨h.1, hd⟩

theorem refines_selectByColumn {map : Column .uint64} {entries : List (Cell .uint64)}
    (h : c.Holds name o rows) (hmap : map.container.Holds o' entries) (invert : Bool) :
    (c.selectByColumn map invert).Refines (Holds name o)
      (Container.selectRows rows entries.length invert (Container.entryAt entries)) :=
  (Container.refines_selectByColumn h.2 hmap invert).map fun _ _ hd => ⟨h.1, hd⟩

/-! ### Other rows under the same name and options -/

lemma refines_rebuild (h : c.Holds name o rows) (entries : List (Cell l)) :
    (c.rebuild entries).Refines (Holds name o) (.ok entries) := by
  rw [rebuild, h.1, show c.options = o from h.2.options_eq]
  exact refines_ofRows name entries o

/-- The rows to build from may be computed from the rows of the column. -/
lemma refines_rebuild_rows (h : c.Holds name o rows) (f : List (Cell k) → List (Cell l)) :
    (c.rebuild (f c.rows)).Refines (Holds name o) (.ok (f rows)) := by
  rw [h.rows_eq]
  exact refines_rebuild h _

/-- The rows at which a mask is true. -/
def maskedRows (rows : List (Cell k)) (flags : List (Cell .bool)) : List (Cell k) :=
  ((rows.zip flags).filter fun (_, keep) => keep == some true).map Prod.fst

theorem refines_filterByMask (h : c.Holds name o rows) (mask : Column .bool) :
    (c.filterByMask mask).Refines (Holds name o)
      (if mask.len = rows.length then .ok (maskedRows rows mask.rows)
        else .error (.lengthMismatch rows.length mask.len)) := by
  rw [filterByMask, h.len_eq, h.rows_eq]
  by_cases hlen : mask.len = rows.length
  · rw [if_pos hlen, if_neg (by simpa using hlen)]
    exact refines_rebuild h _
  · rw [if_neg hlen, if_pos (by simpa using hlen)]
    exact rfl

/-! ### Sorting -/

theorem refines_argsort (h : c.Holds name o rows) (ascending : Bool) :
    (c.argsort ascending).Refines (Holds name o)
      (.ok ((c.sortedOrder ascending).map fun row => some (UInt64.ofNat row))) :=
  refines_rebuild (l := .uint64) h _

/-- Sorting selects the rows through the column of row numbers in sorted order. -/
theorem refines_sort (h : c.Holds name o rows) (ascending : Bool) :
    (c.sort ascending).Refines (Holds name o) (Container.selectRows rows
      ((c.sortedOrder ascending).map fun row => some (UInt64.ofNat row)).length false
      (Container.entryAt ((c.sortedOrder ascending).map fun row => some (UInt64.ofNat row)))) :=
  (refines_argsort h ascending).bind
    (g := fun entries => Container.selectRows rows entries.length false
      (Container.entryAt entries))
    fun _ _ hmap => refines_selectByColumn h hmap.2 false

end Columnar.Column
