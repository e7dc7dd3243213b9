import Columnar.Proofs.Container.Rows
import Columnar.Container.Compare
import Columnar.Container.IndexMap
/-!
# Containers built from the rows of others

Building a container from rows, comparing and selecting refine what the same steps do with lists of
rows. The result is laid out under the options of the container it comes from, whatever the kind of
its rows.
-/

namespace Columnar

variable {k : Kind} {ι : Type} {o o' : Options} {s : List (Slot k)} {rows xs ys : List (Cell k)}

namespace Edit

variable {σ α β : Type}

lemma ofExcept_ok_bind (a : α) (f : α → Edit σ β) : (ofExcept (.ok a) >>= f : Edit σ β) = f a := by
  funext s
  rw [bind_apply]
  simp [ofExcept]

lemma Yields.result_runOn_bind {m : Edit σ Unit} {s t : σ} (h : m.Yields s () t)
    (m' : Edit σ Unit) : ((m >>= fun _ => m').runOn s).result = (m'.runOn t).result := by
  obtain ⟨events, h⟩ := h
  rcases hm : m' t with ⟨_ | _, u, more⟩ <;> simp [runOn, bind_apply, h, hm]

end Edit

/-! ### Building -/

/-- Computing rows and pushing each at once is computing them all and then pushing them. -/
lemma Builder.result_forEach_push {b : Builder k} (h : b.Stores o s)
    (f : ι → Except ColumnError (Cell k)) (l : List ι) :
    ((Edit.forEach l fun x => Edit.ofExcept (f x) >>= Builder.push).runOn b).result
      = l.mapM f >>= fun rows => ((Edit.forEach rows Builder.push).runOn b).result := by
  induction l generalizing b s with
  | nil => rfl
  | cons x l ih =>
    rw [Edit.forEach_cons, List.mapM_cons]
    rcases f x with e | cell
    · rfl
    · obtain ⟨d, hd, hstores⟩ := Builder.yields_push h cell
      rw [Edit.ofExcept_ok_bind, hd.result_runOn_bind, ih hstores]
      rcases l.mapM f with e | rows
      · rfl
      · show ((Edit.forEach rows Builder.push).runOn d).result
          = ((Edit.forEach (cell :: rows) Builder.push).runOn b).result
        rw [Edit.forEach_cons, hd.result_runOn_bind]

namespace Container

variable {c left right : Container k}

lemma result_build (f : ι → Except ColumnError (Cell k)) (l : List ι) (o : Options) :
    (Builder.build o (Edit.forEach l fun x => Edit.ofExcept (f x) >>= Builder.push)).result
      = l.mapM f >>= fun rows => (ofRows rows o).result := by
  rw [Builder.build, Traced.result_bind, Builder.result_forEach_push (Builder.stores_empty o)]
  rcases l.mapM f with e | rows
  · rfl
  · exact (Traced.result_bind _ _).symm

lemma refines_ofRows (rows : List (Cell k)) (o : Options) :
    (ofRows rows o).Refines (Holds o) (.ok rows) := by
  obtain ⟨c, hc, hstores⟩ := result_ofRows rows o
  exact ⟨c, hc, _, hstores, by simp [Function.comp_def]⟩

/-- A container that is built from computed rows has these rows. -/
lemma refines_of_result {x : Traced (Container k)} {spec : Except ColumnError (List (Cell k))}
    (h : x.result = spec >>= fun rows => (ofRows rows o).result) : x.Refines (Holds o) spec := by
  rcases spec with e | rows
  · exact h
  · exact (refines_ofRows rows o).of_result_eq h

/-! ### Comparing -/

/-- The rows of paired chunks are the rows, paired. -/
lemma flatMap_zipWith_rows {β : Type} (hl : left.Holds o xs) (hr : right.Holds o' ys)
    (h : checkLayout left right = .ok ()) (f : Cell k → Cell k → β) :
    ((chunkPairs left right).flatMap fun (l, r) => l.rows.zipWith f r.rows)
      = List.zipWith f xs ys := by
  obtain ⟨s, hl, rfl⟩ := hl
  obtain ⟨t, hr, rfl⟩ := hr
  have hcells : ∀ s t : List (Slot k), List.zipWith f (s.map Slot.cell) (t.map Slot.cell)
      = (s.zip t).map fun p => f p.1.cell p.2.cell := by
    intro s t
    rw [List.zipWith_map, List.map_zip_eq_zipWith]
    rfl
  rw [hcells, hl.zip_slots hr (hl.sizes_eq_of_checkLayout hr h), List.map_flatMap]
  exact List.flatMap_congr fun p _ => hcells p.1.slots p.2.slots

/-- A comparison of two containers: legality, then the layouts, then the rows side by side. -/
theorem refines_compare (hl : left.Holds o xs) (hr : right.Holds o' ys) (op : Comparison) :
    (compare op left right).Refines (Holds o) (do
      k.arithmetic.support.check k (.comparison op)
      checkLayout left right
      return List.zipWith (compareCells op) xs ys) := by
  refine Traced.Refines.ofExcept_bind fun _ _ => Traced.Refines.ofExcept_bind fun _ hlayout => ?_
  rw [flatMap_zipWith_rows hl hr hlayout, hl.options_eq]
  exact refines_ofRows _ o

theorem refines_compareScalar (h : c.Holds o rows) (op : Comparison) (scalar : k.Value) :
    (compareScalar op c scalar).Refines (Holds o) (do
      k.arithmetic.support.check k (.comparison op)
      return rows.map fun cell => compareCells op cell (some scalar)) := by
  refine Traced.Refines.ofExcept_bind fun _ _ => ?_
  rw [h.rows_eq, h.options_eq]
  exact refines_ofRows _ o

/-! ### Selecting -/

/-- The row that an entry of a map names. -/
def mappedRow (rows : List (Cell k)) : Option ℕ → Except ColumnError (Cell k)
  | some source => rowAt rows source
  | none => .ok none

/-- The rows that a map names, one for each position at which it is read. -/
def selectRows (rows : List (Cell k)) (mapLen : ℕ) (invert : Bool)
    (entry : ℕ → Except ColumnError (Option ℕ)) : Except ColumnError (List (Cell k)) :=
  if rows.length < mapLen then .error (.mapExceedsSource mapLen rows.length)
  else (readingOrder mapLen invert).mapM fun position => entry position >>= mappedRow rows

/-- Selecting is computing the rows that the map names and building a container of them. -/
theorem result_selectBy (h : c.Holds o rows) (mapLen : ℕ) (invert : Bool)
    (entry : ℕ → Except ColumnError (Option ℕ)) :
    (c.selectBy mapLen invert entry).result =
      selectRows rows mapLen invert entry >>= fun rows => (ofRows rows o).result := by
  rw [selectBy, selectRows, h.len_eq]
  split_ifs
  · rfl
  · -- reading an entry and pushing the row it names is pushing a row that may be missing
    have hbody : (fun position => do
          match ← (Edit.ofExcept (entry position) : Edit (Builder k) (Option ℕ)) with
          | some source => Builder.push (← Edit.ofExcept (c.get source))
          | none => Builder.push none)
        = fun position =>
          Edit.ofExcept (entry position >>= mappedRow rows) >>= Builder.push := by
      funext position
      rcases entry position with e | _ | source
      · rfl
      · rw [Edit.ofExcept_ok_bind]
        exact (Edit.ofExcept_ok_bind none Builder.push).symm
      · rw [Edit.ofExcept_ok_bind]
        show (Edit.ofExcept (c.get source) >>= Builder.push)
          = Edit.ofExcept (rowAt rows source) >>= Builder.push
        rw [h.get_eq]
    refine Eq.trans ?_ (result_build _ _ o)
    rw [← hbody, ← h.options_eq]
    exact Traced.result_bind _ _

theorem refines_selectBy (h : c.Holds o rows) (mapLen : ℕ) (invert : Bool)
    (entry : ℕ → Except ColumnError (Option ℕ)) :
    (c.selectBy mapLen invert entry).Refines (Holds o) (selectRows rows mapLen invert entry) :=
  refines_of_result (result_selectBy h mapLen invert entry)

/-- What a column of indices has at a position. -/
def entryAt (entries : List (Cell .uint64)) (position : ℕ) : Except ColumnError (Option ℕ) := do
  return (← rowAt entries position).map fun (index : UInt64) => index.toNat

theorem refines_selectByColumn {map : Container .uint64} {entries : List (Cell .uint64)}
    (h : c.Holds o rows) (hmap : map.Holds o' entries) (invert : Bool) :
    (c.selectByColumn map invert).Refines (Holds o)
      (selectRows rows entries.length invert (entryAt entries)) := by
  have hentry : entryAt entries = fun position => do
      return (← map.get position).map fun (index : UInt64) => index.toNat := by
    funext position
    rw [hmap.get_eq, entryAt]
  rw [hentry, ← hmap.len_eq]
  exact refines_selectBy h map.len invert _

end Container

end Columnar
