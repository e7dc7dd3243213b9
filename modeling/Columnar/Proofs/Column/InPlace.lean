import Columnar.Proofs.Column.Filtering
/-!
# Changing rows in place

Replacing, filling and clamping rows in place goes through the chunks of a column and leaves its
masks and counts right along the way; building a column anew from the images of the rows does not
look at chunks. Both ways end with the same column. Values that have been clamped between two bounds
in order lie between them, so that clamping them again changes nothing and filtering by the bounds
drops nothing but nulls and values without an order.
-/

namespace Columnar

variable {k : Kind} {lower upper v : k.Value}

/-! ### Clamping values -/

namespace Container

lemma clamp_cases (lower upper v : k.Value) :
    (Comparison.less.evaluate v lower ∧ clamp lower upper v = lower) ∨
      (Comparison.greater.evaluate v upper ∧ clamp lower upper v = upper) ∨
      (¬ Comparison.less.evaluate v lower ∧ ¬ Comparison.greater.evaluate v upper ∧
        clamp lower upper v = v) := by
  rw [clamp]
  split_ifs with hless hgreater
  · exact .inl ⟨hless, rfl⟩
  · exact .inr (.inl ⟨hgreater, rfl⟩)
  · exact .inr (.inr ⟨hless, hgreater, rfl⟩)

lemma clamp_of_not (hless : ¬ Comparison.less.evaluate v lower)
    (hgreater : ¬ Comparison.greater.evaluate v upper) : clamp lower upper v = v := by
  rw [clamp, if_neg hless, if_neg hgreater]

/-- Between bounds in order, a value is clamped once. -/
lemma clamp_clamp (hbounds : Comparison.lessOrEqual.evaluate lower upper) (v : k.Value) :
    clamp lower upper (clamp lower upper v) = clamp lower upper v := by
  obtain ⟨-, hkeys⟩ := Comparison.evaluate_lessOrEqual_iff.1 hbounds
  rcases clamp_cases lower upper v with ⟨-, hclamp⟩ | ⟨-, hclamp⟩ | ⟨hless, hgreater, hclamp⟩
  · rw [hclamp]
    refine clamp_of_not (fun hless => ?_) fun hgreater => ?_
    · exact (Comparison.evaluate_less_iff.1 hless).2.ne rfl
    · exact hkeys.not_gt (Comparison.evaluate_greater_iff.1 hgreater).2
  · rw [hclamp]
    refine clamp_of_not (fun hless => ?_) fun hgreater => ?_
    · exact hkeys.not_gt (Comparison.evaluate_less_iff.1 hless).2
    · exact (Comparison.evaluate_greater_iff.1 hgreater).2.ne rfl
  · rw [hclamp, hclamp]

/-- A value that is not unordered is clamped to one between the bounds. -/
lemma between_clamp (hbounds : Comparison.lessOrEqual.evaluate lower upper)
    (hv : Kind.Value.isUnordered v = false) :
    Comparison.lessOrEqual.evaluate lower (clamp lower upper v) ∧
      Comparison.lessOrEqual.evaluate (clamp lower upper v) upper := by
  obtain ⟨⟨hlower, hupper⟩, hkeys⟩ := Comparison.evaluate_lessOrEqual_iff.1 hbounds
  rcases clamp_cases lower upper v with ⟨-, hclamp⟩ | ⟨-, hclamp⟩ | ⟨hless, hgreater, hclamp⟩
  · rw [hclamp]
    exact ⟨Comparison.evaluate_lessOrEqual_iff.2 ⟨⟨hlower, hlower⟩, le_rfl⟩, hbounds⟩
  · rw [hclamp]
    exact ⟨hbounds, Comparison.evaluate_lessOrEqual_iff.2 ⟨⟨hupper, hupper⟩, le_rfl⟩⟩
  · rw [hclamp, Comparison.evaluate_lessOrEqual_iff, Comparison.evaluate_lessOrEqual_iff]
    rw [Comparison.evaluate_less_iff, not_and, not_lt] at hless
    rw [Comparison.evaluate_greater_iff, not_and, not_lt] at hgreater
    exact ⟨⟨⟨hlower, hv⟩, hless ⟨hv, hlower⟩⟩, ⟨hv, hupper⟩, hgreater ⟨hv, hupper⟩⟩

/-- A clamped value lies between the bounds unless it is unordered. -/
lemma between_clamp_iff (hbounds : Comparison.lessOrEqual.evaluate lower upper) (v : k.Value) :
    (Comparison.lessOrEqual.evaluate lower (clamp lower upper v) ∧
        Comparison.lessOrEqual.evaluate (clamp lower upper v) upper) ↔
      Kind.Value.isUnordered (clamp lower upper v) = false := by
  refine ⟨fun h => (Comparison.evaluate_lessOrEqual_iff.1 h.2).1.1, fun h => ?_⟩
  have hbetween := between_clamp hbounds h
  rwa [clamp_clamp hbounds] at hbetween

/-- Between bounds in order, a container is clamped once. -/
lemma clip_clip (hbounds : Comparison.lessOrEqual.evaluate lower upper) (c : Container k) :
    (c.clip lower upper).clip lower upper = c.clip lower upper := by
  have hclip : ∀ c : Container k, c.clip lower upper = { c with
      chunks := c.chunks.map fun chunk => chunk.withValues (chunk.values.values.mapIdx fun i v =>
        if chunk.validity.isValid i then clamp lower upper v else v) } := fun _ => rfl
  rw [hclip, hclip, Array.map_map]
  congr 2
  funext chunk
  simp only [Function.comp_apply, Chunk.withValues, Array.mapIdx_mapIdx]
  congr 3
  funext i v
  split_ifs
  · exact clamp_clamp hbounds v
  · rfl

end Container

/-- Whether a row has a value, and one that is not unordered. -/
def Cell.isOrdered (cell : Cell k) : Bool :=
  cell.any fun v => !Kind.Value.isUnordered v

namespace Column

variable {name : String} {o : Options} {rows : List (Cell k)} {slots : List (Slot k)}
  {c d e : Column k}

/-! ### Equal contents -/

/-- The columns have the same chunks, allocations aside: the same values stored, beneath nulls too,
and the same masks. Their names, options and counts are the same. -/
structure SameContents (c d : Column k) : Prop where
  name_eq : c.name = d.name
  options_eq : c.options = d.options
  chunks_eq : c.container.chunks.toList.map (fun chunk => (chunk.values.values, chunk.validity))
    = d.container.chunks.toList.map fun chunk => (chunk.values.values, chunk.validity)
  rows_eq : c.rows = d.rows
  len_eq : c.len = d.len
  nullCount_eq : c.nullCount = d.nullCount

/-- Columns of one name that store the same slots have the same contents. -/
lemma sameContents_of_stores (hname : c.name = d.name) (hc : c.container.Stores o slots)
    (hd : d.container.Stores o slots) : SameContents c d := by
  obtain ⟨hchunks, hlen, hnull, hoptions⟩ := hc.contents_unique hd
  exact ⟨hname, hoptions, hchunks, hc.rows_eq.trans hd.rows_eq.symm, hlen, hnull⟩

/-- A column of the images of the rows stores zeros beneath its nulls. -/
lemma Holds.exists_apply (h : c.Holds name o rows) (f : Cell k → Cell k) :
    ∃ e, (c.apply f).result = .ok e ∧ e.name = c.name ∧
      e.container.Stores o (rows.map fun cell => (f cell).slot) := by
  obtain ⟨container, hcontainer, hstores⟩ := Container.result_ofRows (rows.map f) o
  refine ⟨⟨c.name, container⟩, ?_, rfl, ?_⟩
  · rw [apply, rebuild, h.rows_eq, show c.options = o from h.2.options_eq, ofRows,
      Traced.result_bind, hcontainer]
    rfl
  · rwa [List.map_map] at hstores

/-! ### The loops over the chunks -/

lemma yields_onContainer {m : Edit (Container k) Unit} {container : Container k}
    (h : m.Yields c.container () container) : (onContainer m).Yields c () ⟨c.name, container⟩ :=
  Edit.Yields.within _ h

/-- Replacing the rows in place leaves the contents of the column of their images. -/
lemma Holds.sameContents_applyInPlace (h : c.Holds name o rows) (f : Cell k → Cell k) :
    ∃ d e, (applyInPlace f).Yields c () d ∧ (c.apply f).result = .ok e ∧ SameContents d e := by
  obtain ⟨e, he, hname, hestores⟩ := h.exists_apply f
  obtain ⟨slots, hstores, rfl⟩ := h.2
  obtain ⟨container, hyields, hdstores⟩ := Container.yields_applyInPlace hstores f
  rw [List.map_map] at hestores
  exact ⟨_, e, yields_onContainer hyields, he, sameContents_of_stores hname.symm hdstores hestores⟩

/-- Filling the nulls in place leaves the contents of the column in which they have the value. -/
lemma Holds.sameContents_fillNullsInPlace (h : c.Holds name o rows) (v : k.Value) :
    ∃ d e, (fillNullsInPlace v).Yields c () d ∧
      (c.apply fun cell => some (cell.getD v)).result = .ok e ∧ SameContents d e ∧
      d.nullCount = 0 := by
  obtain ⟨e, he, hname, hestores⟩ := h.exists_apply fun cell => some (cell.getD v)
  obtain ⟨slots, hstores, rfl⟩ := h.2
  have hdstores := hstores.fillNulls v
  have hslots : (slots.map Slot.cell).map (fun cell => Cell.slot (some (cell.getD v)))
      = slots.map fun x => (if x.2 then x.1 else v, true) := by
    rw [List.map_map]
    refine List.map_congr_left fun x _ => ?_
    obtain ⟨w, _ | _⟩ := x <;> rfl
  rw [hslots] at hestores
  refine ⟨_, e, yields_onContainer (Edit.yields_updates _ _), he,
    sameContents_of_stores hname.symm hdstores hestores, ?_⟩
  show (c.container.fillNulls v).nullCount = 0
  rw [hdstores.nullCount_eq, List.countP_map, List.countP_eq_zero]
  simp [Slot.isNull]

/-- Clamping in place clamps the values of the rows. -/
lemma Holds.yields_clipInPlace (h : c.Holds name o rows) (hordering : k.support.ordering)
    (lower upper : k.Value) :
    (clipInPlace lower upper).Yields c () ⟨c.name, c.container.clip lower upper⟩ ∧
      Holds name o ⟨c.name, c.container.clip lower upper⟩
        (rows.map (Option.map (Container.clamp lower upper))) := by
  have hcheck : check k (.comparison .greaterOrEqual) = .ok () := check_eq_ok hordering
  have hyields : (clipInPlace lower upper).Yields c () ⟨c.name, c.container.clip lower upper⟩ :=
    (Edit.yields_ofExcept hcheck c).bind (yields_onContainer (Edit.yields_updates _ _))
  have hrefines := refines_clipInPlace h lower upper
  rw [hcheck] at hrefines
  obtain ⟨d, hd, hholds⟩ := hrefines
  obtain rfl := hd.state.symm.trans hyields.state
  exact ⟨hyields, hholds⟩

/-- After clamping between bounds in order, filtering by the bounds keeps what is ordered. -/
lemma Holds.filter_clamped
    (h : c.Holds name o (rows.map (Option.map (Container.clamp lower upper))))
    (hordering : k.support.ordering) (hbounds : Comparison.lessOrEqual.evaluate lower upper) :
    ∃ d, (c.filter lower upper).result = .ok d ∧ d.rows = c.rows.filter Cell.isOrdered := by
  have hkeep : ∀ cell ∈ rows.map (Option.map (Container.clamp lower upper)),
      (withinBounds lower upper cell == some true) = Cell.isOrdered cell := by
    intro cell hcell
    obtain ⟨_ | v, -, rfl⟩ := List.mem_map.1 hcell
    · rfl
    · have hbetween := Container.between_clamp_iff hbounds v
      rw [withinBounds, Option.map_some, Option.map_some, Comparison.evaluate_greaterOrEqual,
        Cell.isOrdered, Option.any_some, Bool.eq_iff_iff, beq_iff_eq, Option.some.injEq,
        Bool.and_eq_true, Bool.not_eq_true']
      exact hbetween
  rw [h.filter_eq hordering, List.filter_congr hkeep, h.rows_eq]
  obtain ⟨d, hd, hholds⟩ := refines_rebuild h
    ((rows.map (Option.map (Container.clamp lower upper))).filter Cell.isOrdered)
  exact ⟨d, hd, hholds.rows_eq⟩

/-! ### Reachable columns -/

/-- How the changes in place relate to the columns of the images of the rows. -/
structure ChangesAgree (c : Column k) : Prop where
  apply : ∀ f : Cell k → Cell k, ∃ d e, (applyInPlace f).Yields c () d ∧
    (c.apply f).result = .ok e ∧ SameContents d e
  fillNulls : ∀ v : k.Value, ∃ d e, (fillNullsInPlace v).Yields c () d ∧
    (c.apply fun cell => some (cell.getD v)).result = .ok e ∧ SameContents d e ∧ d.nullCount = 0
  clip : k.support.ordering → ∀ lower upper : k.Value, ∃ d e,
    (clipInPlace lower upper).Yields c () d ∧
      (c.apply (Option.map (Container.clamp lower upper))).result = .ok e ∧ d.rows = e.rows
  illegal : ¬ k.support.ordering → ∀ lower upper : k.Value, (clipInPlace lower upper).Refuses c
    (.unsupportedOperation k (.comparison .greaterOrEqual))
  /-- Between bounds in order, rows are clamped once, and filtering by the bounds then keeps every
  value that is not unordered. -/
  clamped : k.support.ordering → ∀ lower upper : k.Value,
    Comparison.lessOrEqual.evaluate lower upper → ∃ d kept,
      (clipInPlace lower upper).Yields c () d ∧ (clipInPlace lower upper).Yields d () d ∧
        (d.filter lower upper).result = .ok kept ∧ kept.rows = d.rows.filter Cell.isOrdered ∧
        (k ≠ .float32 → k ≠ .float64 → kept.rows = d.rows.filter Option.isSome)

/-- **Changes in place agree with the columns of the images.** On a reachable column, replacing the
rows in place by a function leaves the chunks, masks and counts of the column that is built from
their images. Filling the nulls does so too, with no null left. Clamping, where it is legal, leaves
the rows of the column of the clamped values; between bounds in order, clamping again changes
nothing, and every value that is not unordered, which is every value unless the kind is a
floating-point one, is kept by filtering between the bounds. -/
theorem Reachable.changes_agree (h : c.Reachable) : ChangesAgree c := by
  have h := h.holds
  constructor
  case apply => exact h.sameContents_applyInPlace
  case fillNulls => exact h.sameContents_fillNullsInPlace
  case clip =>
    intro hordering lower upper
    obtain ⟨hyields, hholds⟩ := h.yields_clipInPlace hordering lower upper
    obtain ⟨e, he, hrows⟩ := refines_rebuild h
      (c.rows.map (Option.map (Container.clamp lower upper)))
    exact ⟨_, e, hyields, he, hholds.rows_eq.trans hrows.rows_eq.symm⟩
  case illegal =>
    intro hordering lower upper
    have hcheck : check k (.comparison .greaterOrEqual)
        = .error (.unsupportedOperation k (.comparison .greaterOrEqual)) := check_eq_error hordering
    exact (Edit.refuses_ofExcept hcheck c).bind _
  case clamped =>
    intro hordering lower upper hbounds
    obtain ⟨hyields, hholds⟩ := h.yields_clipInPlace hordering lower upper
    obtain ⟨hagain, -⟩ := hholds.yields_clipInPlace hordering lower upper
    obtain ⟨kept, hkept, hrows⟩ := hholds.filter_clamped hordering hbounds
    rw [Container.clip_clip hbounds] at hagain
    refine ⟨_, kept, hyields, hagain, hkept, hrows, fun h32 h64 => ?_⟩
    rw [hrows]
    refine List.filter_congr fun cell _ => ?_
    rcases cell with _ | v
    · rfl
    · rw [Cell.isOrdered, Option.any_some, Kind.Value.isUnordered_eq_false h32 h64]
      rfl

/-- Two nulls, at the end of a chunk and in a chunk of its own, and values beyond both bounds. -/
theorem changes_agree_of_five_rows : ∃ c d : Column .int16,
    (ofRows "a" [some 9, none, some (-4), some 2, none] (.withChunkRows .int16 2)).result = .ok c ∧
      (clipInPlace 0 5).Yields c () d ∧ d.rows = [some 5, none, some 0, some 2, none] ∧
      Comparison.lessOrEqual.evaluate (k := .int16) 0 5 ∧ ChangesAgree c := by
  obtain ⟨c, hc⟩ : ∃ c : Column .int16, (ofRows "a" [some 9, none, some (-4), some 2, none]
      (.withChunkRows .int16 2)).result = .ok c := ⟨_, rfl⟩
  have hagree := Reachable.changes_agree (.ofRows "a" _ _ hc)
  obtain ⟨d, hd, hholds⟩ := refines_ofRows "a"
    ([some 9, none, some (-4), some 2, none] : List (Cell .int16)) (.withChunkRows .int16 2)
  obtain rfl : c = d := Except.ok.inj (hc.symm.trans hd)
  obtain ⟨hyields, hclipped⟩ := hholds.yields_clipInPlace rfl 0 5
  exact ⟨c, _, hc, hyields, hclipped.rows_eq.trans (by decide), by decide, hagree⟩

end Column

end Columnar
