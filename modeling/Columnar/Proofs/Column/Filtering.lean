import Columnar.Proofs.Column.Comparison
/-!
# Filtering, directly and by masks

A mask keeps the rows at which it is true, in order, nulls included. The rows between two bounds
are also those that are kept by the mask of the two comparisons with the bounds, and the rows with a
value those that are kept by the negated mask of nulls. Either way the same column is built, also
for values that are unordered and for bounds of which the lower one is above the upper one.
-/

namespace Columnar

variable {k : Kind}

namespace Comparison

/-- The same two values the other way round. -/
lemma evaluate_greaterOrEqual (a b : k.Value) :
    greaterOrEqual.evaluate a b = lessOrEqual.evaluate b a := by
  rw [evaluate, evaluate, Kind.Value.compare?, Kind.Value.compare?, Bool.or_comm]
  split_ifs
  · rfl
  · rw [Std.OrientedOrd.eq_swap (a := Kind.Value.key a)]
    cases compare (Kind.Value.key b) (Kind.Value.key a) <;> rfl

end Comparison

namespace Column

variable {name name' : String} {o o' : Options} {rows : List (Cell k)} {flags : List (Cell .bool)}
  {c d : Column k} {mask : Column .bool}

/-! ### Masks -/

/-- The rows at which a mask is true, by their numbers. -/
lemma maskedRows_eq (h : flags.length = rows.length) : maskedRows rows flags =
    ((List.range rows.length).filter fun i => flags.getD i none == some true).map
      fun i => rows.getD i none := by
  have hflags := map_getD_range flags
  rw [h] at hflags
  conv_lhs => rw [maskedRows, ← map_getD_range rows, ← hflags, List.zip_map']
  rw [List.filter_map, List.map_map]
  rfl

/-- A mask that is a function of the rows. -/
lemma maskedRows_map (rows : List (Cell k)) (f : Cell k → Cell .bool) :
    maskedRows rows (rows.map f) = rows.filter fun cell => f cell == some true := by
  have hzip : rows.zip (rows.map f) = rows.map fun cell => (cell, f cell) := by
    rw [← List.zip_map', List.map_id']
  rw [maskedRows, hzip, List.filter_map, List.map_map]
  exact List.map_id _

/-- The column has the rows of another one at which a mask is true, in order. -/
structure KeepsTrue (c : Column k) (mask : Column .bool) (d : Column k) : Prop where
  name_eq : d.name = c.name
  options_eq : d.options = c.options
  rows : ∃ numbers : List ℕ, numbers.Pairwise (· < ·) ∧
    (∀ i, i ∈ numbers ↔ mask.get i = .ok (some true)) ∧
    List.Forall₂ (fun i cell => c.get i = .ok cell) numbers d.rows

/-- How filtering by a mask ends. -/
structure MaskOutcome (c : Column k) (mask : Column .bool)
    (result : Except ColumnError (Column k)) : Prop where
  lengthMismatch : result = .error (.lengthMismatch c.len mask.len) ↔ c.len ≠ mask.len
  succeeds : c.len = mask.len → ∃ d, result = .ok d ∧ KeepsTrue c mask d

lemma Holds.keepsTrue (h : c.Holds name o rows) (hmask : mask.Holds name' o' flags)
    (hlen : flags.length = rows.length) (hd : d.Holds name o (maskedRows rows flags)) :
    KeepsTrue c mask d := by
  refine ⟨hd.1.trans h.1.symm, hd.2.options_eq.trans h.2.options_eq.symm,
    (List.range rows.length).filter fun i => flags.getD i none == some true, ?_, ?_, ?_⟩
  · exact List.pairwise_lt_range.filter _
  · intro i
    rw [List.mem_filter, List.mem_range, beq_iff_eq, ← hlen]
    rw [hmask.get_eq_ok_iff, List.getElem?_eq_some_iff]
    constructor
    · rintro ⟨hi, htrue⟩
      exact ⟨hi, by rwa [List.getD_eq_getElem _ _ hi] at htrue⟩
    · rintro ⟨hi, htrue⟩
      exact ⟨hi, by rwa [List.getD_eq_getElem _ _ hi]⟩
  · rw [hd.rows_eq, maskedRows_eq hlen, List.forall₂_map_right_iff, List.forall₂_same]
    intro i hi
    have hlt := List.mem_range.1 (List.mem_filter.1 hi).1
    refine h.get_eq_ok_iff.2 ?_
    rw [List.getD_eq_getElem _ _ hlt, List.getElem?_eq_getElem hlt]

lemma Holds.maskOutcome (h : c.Holds name o rows) (hmask : mask.Holds name' o' flags) :
    MaskOutcome c mask (c.filterByMask mask).result := by
  have hrefines := refines_filterByMask h mask
  rw [hmask.rows_eq, ← h.len_eq] at hrefines
  by_cases hlen : c.len = mask.len
  · rw [if_pos hlen.symm] at hrefines
    obtain ⟨d, hd, hholds⟩ := hrefines
    have hlength : flags.length = rows.length := by rw [← hmask.len_eq, ← h.len_eq, hlen]
    exact ⟨by simp [hd, hlen], fun _ => ⟨d, hd, h.keepsTrue hmask hlength hholds⟩⟩
  · rw [if_neg (Ne.symm hlen)] at hrefines
    have hresult : (c.filterByMask mask).result = .error (.lengthMismatch c.len mask.len) :=
      hrefines
    exact ⟨by simp [hresult, hlen], fun heq => absurd heq hlen⟩

/-- Filtering by a mask that is a function of the rows is building a column of the rows at which the
function is true. -/
lemma Holds.filterByMask_eq (h : c.Holds name o rows) {f : Cell k → Cell .bool}
    (hmask : mask.Holds name' o' (rows.map f)) :
    c.filterByMask mask = c.rebuild (rows.filter fun cell => f cell == some true) := by
  have hlen : mask.len = c.len := by rw [hmask.len_eq, h.len_eq, List.length_map]
  rw [filterByMask, if_neg (by simpa using hlen), h.rows_eq, hmask.rows_eq]
  exact congrArg c.rebuild (maskedRows_map rows f)

/-! ### Rows between bounds -/

/-- Whether a row has a value between two bounds; null if it has none. -/
def withinBounds (lower upper : k.Value) (cell : Cell k) : Cell .bool :=
  cell.map fun v => Comparison.greaterOrEqual.evaluate v lower &&
    Comparison.lessOrEqual.evaluate v upper

/-- A row between bounds has a value, and one that is in order with the bounds. -/
lemma ordered_of_withinBounds {lower upper : k.Value} {cell : Cell k}
    (h : withinBounds lower upper cell = some true) :
    ∃ v, cell = some v ∧ Kind.Value.isUnordered v = false := by
  obtain ⟨v, rfl, hv⟩ := Option.map_eq_some_iff.1 h
  rw [Bool.and_eq_true] at hv
  exact ⟨v, rfl, (Comparison.evaluate_lessOrEqual_iff.1 hv.2).1.1⟩

/-- Two masks of one column, combined row by row. -/
lemma onPairs_and (rows : List (Cell k)) (f g : k.Value → Bool) :
    BinaryOp.onPairs (k := .bool) (.bitwise .and)
        ((rows.map (Option.map f)).zip (rows.map (Option.map g))) =
      .ok (rows.map (Option.map fun v => f v && g v)) := by
  rw [List.zip_map']
  refine BinaryOp.onPairs_eq_ok fun cell _ => ?_
  rcases cell with _ | v <;> rfl

/-- The mask of a legal comparison with a scalar. -/
lemma Holds.exists_compareScalar (h : c.Holds name o rows) {op : Comparison}
    (hallows : k.support.allows (.comparison op)) (scalar : k.Value) :
    ∃ d, (c.compareScalar op scalar).result = .ok d ∧
      d.Holds name o (rows.map (Option.map fun v => op.evaluate v scalar)) := by
  have hrefines := refines_compareScalar h op scalar
  have hcells : (fun cell => Container.compareCells op cell (some scalar))
      = Option.map fun v => op.evaluate v scalar := by
    funext cell
    rcases cell with _ | v <;> rfl
  rwa [check_eq_ok hallows, hcells] at hrefines

/-- The masks of two bounds can be combined, whatever the bounds are. -/
lemma Holds.exists_bound_masks (h : c.Holds name o rows) (hordering : k.support.ordering)
    (lower upper : k.Value) : ∃ ge le both : Column .bool,
      (c.compareScalar .greaterOrEqual lower).result = .ok ge ∧
      (c.compareScalar .lessOrEqual upper).result = .ok le ∧
      (ge.binary (.bitwise .and) le).result = .ok both ∧
      both.Holds name o (rows.map (withinBounds lower upper)) := by
  have hge : k.support.allows (.comparison .greaterOrEqual) := hordering
  have hle : k.support.allows (.comparison .lessOrEqual) := hordering
  obtain ⟨ge, hge, hgeholds⟩ := h.exists_compareScalar hge lower
  obtain ⟨le, hle, hleholds⟩ := h.exists_compareScalar hle upper
  have hboth := refines_binary hgeholds hleholds.2 (.bitwise .and)
  rw [check_eq_ok rfl, hgeholds.2.checkLayout_eq_ok hleholds.2 (by simp)] at hboth
  change Traced.Refines _ _ (BinaryOp.onPairs _ _) at hboth
  rw [onPairs_and] at hboth
  obtain ⟨both, hboth, hbothholds⟩ := hboth
  exact ⟨ge, le, both, hge, hle, hboth, hbothholds⟩

/-- The rows between the bounds are those at which the masks of the bounds are both true. -/
lemma Holds.filter_eq (h : c.Holds name o rows) (hordering : k.support.ordering)
    (lower upper : k.Value) : (c.filter lower upper).result =
      (c.rebuild (rows.filter fun cell => withinBounds lower upper cell == some true)).result := by
  have hcheck : check k (.comparison .greaterOrEqual) = .ok () := check_eq_ok hordering
  rw [filter, hcheck, h.rows_eq, Traced.result_bind]
  refine congrArg (fun keep => (c.rebuild (rows.filter keep)).result) (funext fun cell => ?_)
  rcases cell with _ | v
  · rfl
  · rw [withinBounds, Option.map_some, Comparison.evaluate_greaterOrEqual]
    exact (Option.some_beq_some.trans (beq_true _)).symm

/-! ### Rows with a value -/

/-- A mask of nulls, negated by the exclusive disjunction with a scalar on either side. -/
lemma onPairs_xor_true (rows : List (Cell k)) (reverse : Bool) :
    BinaryOp.onPairs (k := .bool) (.bitwise .xor)
        ((rows.map fun cell => some cell.isNone).map (BinaryOp.beside true reverse)) =
      .ok (rows.map fun cell => some cell.isSome) := by
  rw [List.map_map]
  refine BinaryOp.onPairs_eq_ok fun cell _ => ?_
  rcases cell with _ | v <;> cases reverse <;> rfl

lemma Holds.exists_value_mask (h : c.Holds name o rows) (reverse : Bool) :
    ∃ nulls valid : Column .bool, c.isNullMask.result = .ok nulls ∧
      (nulls.binaryScalar (.bitwise .xor) true reverse).result = .ok valid ∧
      valid.Holds name o (rows.map fun cell => some cell.isSome) := by
  obtain ⟨nulls, hnulls, hholds⟩ :=
    refines_rebuild (l := .bool) h (rows.map fun cell => some cell.isNone)
  rw [← h.rows_eq] at hnulls
  have hvalid := refines_binaryScalar hholds (.bitwise .xor) true reverse
  rw [check_eq_ok rfl] at hvalid
  change Traced.Refines _ _ (BinaryOp.onPairs _ _) at hvalid
  rw [onPairs_xor_true] at hvalid
  obtain ⟨valid, hvalid, hvalidholds⟩ := hvalid
  exact ⟨nulls, valid, hnulls, hvalid, hvalidholds⟩

/-! ### Reachable columns -/

/-- How the ways to filter a column relate. -/
structure FiltersAgree (c : Column k) : Prop where
  /-- The rows between two bounds are those that the masks of the bounds keep together. -/
  bounds : k.support.ordering → ∀ lower upper : k.Value,
    ∃ (ge le both : Column .bool) (d : Column k),
      (c.compareScalar .greaterOrEqual lower).result = .ok ge ∧
      (c.compareScalar .lessOrEqual upper).result = .ok le ∧
      (ge.binary (.bitwise .and) le).result = .ok both ∧
      (c.filter lower upper).result = .ok d ∧ (c.filterByMask both).result = .ok d ∧
      ∀ cell ∈ d.rows, ∃ v, cell = some v ∧ Kind.Value.isUnordered v = false
  /-- The rows with a value are those that the negated mask of nulls keeps. -/
  nulls : ∀ reverse : Bool, ∃ (nulls valid : Column .bool) (d : Column k),
    c.isNullMask.result = .ok nulls ∧
      (nulls.binaryScalar (.bitwise .xor) true reverse).result = .ok valid ∧
      c.dropNulls.result = .ok d ∧ (c.filterByMask valid).result = .ok d
  /-- A mask keeps the rows at which it is true, however it is cut into chunks. -/
  masks : ∀ mask : Column .bool, mask.Reachable → MaskOutcome c mask (c.filterByMask mask).result

/-- **The ways to filter agree.** On a reachable column, filtering between two bounds and dropping
nulls give what filtering by a mask gives, with the masks of the bounds combined and with the
negated mask of nulls; and filtering by any mask of the right length keeps the rows at which the
mask is true. -/
theorem filters_agree (h : c.Reachable) : FiltersAgree c := by
  have h := h.holds
  constructor
  case bounds =>
    intro hordering lower upper
    obtain ⟨ge, le, both, hge, hle, hboth, hholds⟩ := h.exists_bound_masks hordering lower upper
    obtain ⟨d, hd, hdholds⟩ := refines_rebuild h
      (c.rows.filter fun cell => withinBounds lower upper cell == some true)
    refine ⟨ge, le, both, d, hge, hle, hboth, (h.filter_eq hordering lower upper).trans hd, ?_, ?_⟩
    · rw [h.filterByMask_eq hholds, hd]
    · intro cell hcell
      rw [hdholds.rows_eq, List.mem_filter, beq_iff_eq] at hcell
      exact ordered_of_withinBounds hcell.2
  case nulls =>
    intro reverse
    obtain ⟨nulls, valid, hnulls, hvalid, hholds⟩ := h.exists_value_mask reverse
    obtain ⟨d, hd, -⟩ := refines_rebuild h (c.rows.filter Option.isSome)
    have htrue : (fun cell : Cell k => some cell.isSome == some true) = Option.isSome := by
      funext cell
      cases cell <;> rfl
    refine ⟨nulls, valid, d, hnulls, hvalid, ?_, ?_⟩
    · rw [dropNulls, hd]
    · rw [h.filterByMask_eq hholds, ← hd]
      exact congrArg (fun keep => (c.rebuild (c.rows.filter keep)).result) htrue
  case masks =>
    intro mask hmask
    exact h.maskOutcome hmask.holds

/-- Five rows in chunks of two, a null among them and one on which the mask is null. -/
theorem filters_agree_of_five_rows : ∃ (c d : Column .int32) (mask : Column .bool),
    (ofRows "a" [some 1, none, some 3, some 4, none] (.withChunkRows .int32 2)).result = .ok c ∧
      (ofRows "m" [some true, some true, none, some false, some true]
        (.withChunkRows .bool 3)).result = .ok mask ∧
      (c.filterByMask mask).result = .ok d ∧ d.rows = [some 1, none, none] ∧
      MaskOutcome c mask (.ok d) ∧ FiltersAgree c :=
  have h := filters_agree (k := .int32)
    (.ofRows "a" [some 1, none, some 3, some 4, none] (.withChunkRows .int32 2) rfl)
  ⟨_, _, _, rfl, rfl, rfl, by decide, h.masks _ (.ofRows "m"
    [some true, some true, none, some false, some true] (.withChunkRows .bool 3) rfl), h⟩

end Column

end Columnar
