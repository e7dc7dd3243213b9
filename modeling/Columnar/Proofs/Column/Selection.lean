import Columnar.Proofs.Column.Rows
/-!
# Selecting rows through maps

An index map is a list of entries, in which a null entry stands for a null row. It is refused if it
is longer than the source, or else if an entry is past the end of the source, of which the first one
in reading order is named; and otherwise the result has the row that each entry names. What is
selected depends on the list of entries only, whether it came as a list or as a column, and read
back to front it is the reversed list. Selecting twice is selecting through the composed map, so
that a permutation is undone by its inverse.
-/

namespace Columnar

variable {k : Kind}

namespace Container

variable {c d : Container k} {o o' : Options} {rows rows' : List (Cell k)}
  {entries : List (Option ℕ)} {invert : Bool}

/-! ### Reading order -/

/-- The entries of a map in the order in which they are read. -/
def inReadingOrder {α : Type} (entries : List α) (invert : Bool) : List α :=
  if invert then entries.reverse else entries

lemma length_inReadingOrder {α : Type} (l : List α) (invert : Bool) :
    (inReadingOrder l invert).length = l.length := by
  cases invert <;> simp [inReadingOrder]

lemma mem_inReadingOrder {α : Type} {l : List α} {a : α} :
    a ∈ inReadingOrder l invert ↔ a ∈ l := by
  cases invert <;> simp [inReadingOrder]

/-- The entry that is read for a row of the result. -/
lemma getElem?_inReadingOrder {α : Type} {l : List α} {i : ℕ} (hi : i < l.length) :
    (inReadingOrder l invert)[i]? = l[if invert then l.length - 1 - i else i]? := by
  cases invert
  · rfl
  · exact List.getElem?_reverse hi

lemma inReadingOrder_reverse {α : Type} (l : List α) (invert : Bool) :
    inReadingOrder l.reverse invert = inReadingOrder l !invert := by
  cases invert <;> simp [inReadingOrder]

/-- The positions of a map, read one after the other. -/
lemma map_readingOrder {α β : Type} {l : List α} {f : ℕ → β} {g : α → β} (invert : Bool)
    (h : ∀ i (hi : i < l.length), f i = g l[i]) :
    (readingOrder l.length invert).map f = (inReadingOrder l invert).map g := by
  refine List.ext_getElem (by cases invert <;> simp [readingOrder, inReadingOrder]) ?_
  intro i hi hi'
  have hlt : i < l.length := by rwa [List.length_map, length_inReadingOrder] at hi'
  cases invert
  · simpa [readingOrder, inReadingOrder] using h i hlt
  · simpa [readingOrder, inReadingOrder] using h (l.length - 1 - i) (by omega)

/-! ### Selecting as a function of the entries -/

/-- The rows that the entries of a map name, in reading order. -/
def selectEntries (rows : List (Cell k)) (entries : List (Option ℕ)) (invert : Bool) :
    Except ColumnError (List (Cell k)) :=
  if rows.length < entries.length then .error (.mapExceedsSource entries.length rows.length)
  else (inReadingOrder entries invert).mapM (mappedRow rows)

/-- A map is the list of what it has at its positions. -/
lemma selectRows_eq_selectEntries (entry : ℕ → Except ColumnError (Option ℕ))
    (hentry : ∀ i (hi : i < entries.length), entry i = .ok entries[i]) :
    selectRows rows entries.length invert entry = selectEntries rows entries invert := by
  have hread : ∀ i (hi : i < entries.length),
      (entry i >>= mappedRow rows) = mappedRow rows entries[i] := by
    intro i hi
    rw [hentry i hi]
    rfl
  rw [selectRows, selectEntries, mapM_congr_map (map_readingOrder invert hread)]

/-- What a list of indices selects. -/
lemma Holds.result_select (h : c.Holds o rows) (map : Array ℕ) (invert : Bool) :
    (c.select map invert).result = selectEntries rows (map.toList.map some) invert
      >>= fun rows => (ofRows rows o).result := by
  have hlength : (map.toList.map some).length = map.size := by simp
  rw [← selectRows_eq_selectEntries (fun position => .ok map[position]?), hlength]
  · exact result_selectBy h map.size invert _
  · intro i hi
    rw [List.length_map, Array.length_toList] at hi
    simp [hi]

/-- What a column of indices selects. -/
lemma Holds.result_selectByColumn {map : Container .uint64} {cells : List (Cell .uint64)}
    (h : c.Holds o rows) (hmap : map.Holds o' cells) (invert : Bool) :
    (c.selectByColumn map invert).result =
      selectEntries rows (cells.map (Option.map UInt64.toNat)) invert
        >>= fun rows => (ofRows rows o).result := by
  have hlength : (cells.map (Option.map UInt64.toNat)).length = map.len := by
    rw [List.length_map, hmap.len_eq]
  rw [← selectRows_eq_selectEntries (fun position => do
    return (← map.get position).map fun (index : UInt64) => index.toNat), hlength]
  · exact result_selectBy h map.len invert _
  · intro i hi
    rw [List.length_map] at hi
    rw [hmap.get_eq, rowAt, dif_pos hi, List.getElem_map]
    rfl

/-! ### The outcome -/

/-- Whether an entry is past the end of a source of some length. -/
def pastEnd (len : ℕ) (entry : Option ℕ) : Bool := entry.any (len ≤ ·)

/-- The row of a container that an entry stands for. -/
def entryRow (c : Container k) : Option ℕ → Except ColumnError (Cell k)
  | some index => c.get index
  | none => .ok none

/-- The row that an entry names in a list of rows in which it is not past the end. -/
def entryCell (rows : List (Cell k)) (entry : Option ℕ) : Cell k :=
  entry.bind fun index => rows.getD index none

lemma mappedRow_eq_ok {entry : Option ℕ} (h : ¬ pastEnd rows.length entry) :
    mappedRow rows entry = .ok (entryCell rows entry) := by
  rcases entry with _ | index
  · rfl
  · have hlt : index < rows.length := by simpa [pastEnd] using h
    rw [mappedRow, rowAt, dif_pos hlt, entryCell, Option.bind_some,
      List.getD_eq_getElem _ _ hlt]

lemma Holds.entryRow_eq (h : c.Holds o rows) : c.entryRow = mappedRow rows := by
  funext entry
  rcases entry with _ | index
  · rfl
  · exact h.get_eq index

/-- The first entry past the end is the one that is named. -/
lemma mapM_mappedRow_eq_error {l : List (Option ℕ)} {index : ℕ}
    (h : l.find? (pastEnd rows.length) = some (some index)) :
    l.mapM (mappedRow rows) = .error (.indexOutOfRange index rows.length) := by
  obtain ⟨hpast, before, after, rfl, hbefore⟩ := List.find?_eq_some_iff_append.1 h
  have hindex : ¬ index < rows.length := by simpa [pastEnd] using hpast
  have hok := mapM_eq_ok (f := mappedRow rows) (l := before) fun entry hentry =>
    mappedRow_eq_ok (by simpa using hbefore entry hentry)
  rw [List.mapM_append, hok, List.mapM_cons, mappedRow, rowAt, dif_neg hindex]
  rfl

/-- A map is too long, or has a first entry past the end, or names a row with every entry. -/
lemma selectEntries_cases (rows : List (Cell k)) (entries : List (Option ℕ)) (invert : Bool) :
    rows.length < entries.length ∧
        selectEntries rows entries invert = .error (.mapExceedsSource entries.length rows.length) ∨
      entries.length ≤ rows.length ∧
        (∃ index, (inReadingOrder entries invert).find? (pastEnd rows.length) = some (some index) ∧
          selectEntries rows entries invert = .error (.indexOutOfRange index rows.length)) ∨
      entries.length ≤ rows.length ∧
        (inReadingOrder entries invert).find? (pastEnd rows.length) = none ∧
        selectEntries rows entries invert =
          .ok ((inReadingOrder entries invert).map (entryCell rows)) := by
  rw [selectEntries]
  split_ifs with hlen
  · exact .inl ⟨hlen, rfl⟩
  · rcases hfind : (inReadingOrder entries invert).find? (pastEnd rows.length) with _ | _ | index
    · refine .inr (.inr ⟨not_lt.1 hlen, rfl, mapM_eq_ok fun entry hentry => mappedRow_eq_ok ?_⟩)
      exact List.find?_eq_none.1 hfind entry hentry
    · cases List.find?_some hfind
    · exact .inr (.inl ⟨not_lt.1 hlen, index, rfl, mapM_mappedRow_eq_error hfind⟩)

/-- How selecting rows through a map of some entries ends, in the order of precedence. -/
structure SelectionOutcome (c : Container k) (entries : List (Option ℕ)) (invert : Bool)
    (result : Except ColumnError (Container k)) : Prop where
  tooLong : result = .error (.mapExceedsSource entries.length c.len) ↔ c.len < entries.length
  /-- Of the entries past the end, the first one in reading order is named. -/
  outOfRange : entries.length ≤ c.len → ∀ index,
    (result = .error (.indexOutOfRange index c.len) ↔
      (inReadingOrder entries invert).find? (pastEnd c.len) = some (some index))
  succeeds : entries.length ≤ c.len → (∀ index, some index ∈ entries → index < c.len) →
    ∃ d, result = .ok d ∧ d.options = c.options ∧ d.len = entries.length ∧
      ∀ i < entries.length, ∃ entry,
        entries[if invert then entries.length - 1 - i else i]? = some entry ∧
          d.get i = c.entryRow entry

/-- A container of the rows that the entries of a map name has them row by row. -/
lemma Holds.get_of_entries (h : c.Holds o rows)
    (hd : d.Holds o ((inReadingOrder entries invert).map (entryCell rows)))
    (hnone : (inReadingOrder entries invert).find? (pastEnd rows.length) = none) {i : ℕ}
    (hi : i < entries.length) : ∃ entry,
      entries[if invert then entries.length - 1 - i else i]? = some entry ∧
        d.get i = c.entryRow entry := by
  have hi' : i < (inReadingOrder entries invert).length := by rwa [length_inReadingOrder]
  refine ⟨(inReadingOrder entries invert)[i], ?_, ?_⟩
  · rw [← getElem?_inReadingOrder hi, List.getElem?_eq_getElem hi']
  · rw [h.entryRow_eq, mappedRow_eq_ok (List.find?_eq_none.1 hnone _ (List.getElem_mem hi')),
      hd.get_eq_ok_iff, List.getElem?_map, List.getElem?_eq_getElem hi']
    rfl

lemma Holds.selectionOutcome (h : c.Holds o rows) {x : Except ColumnError (Container k)}
    (hx : x = selectEntries rows entries invert >>= fun rows => (ofRows rows o).result) :
    SelectionOutcome c entries invert x := by
  have hlen := h.len_eq
  rcases selectEntries_cases rows entries invert with
    ⟨hlong, he⟩ | ⟨hle, index, hfind, he⟩ | ⟨hle, hnone, hok⟩
  · rw [he] at hx
    have hresult : x = .error (.mapExceedsSource entries.length c.len) := by rw [hx, hlen]; rfl
    rw [← hlen] at hlong
    constructor
    case tooLong => exact iff_of_true hresult hlong
    case outOfRange => exact fun hle => absurd hlong (Nat.not_lt.2 hle)
    case succeeds => exact fun hle => absurd hlong (Nat.not_lt.2 hle)
  · rw [he] at hx
    have hresult : x = .error (.indexOutOfRange index c.len) := by rw [hx, hlen]; rfl
    rw [← hlen] at hle hfind
    constructor
    case tooLong => simp [hresult, hle]
    case outOfRange => exact fun _ index' => by simp [hresult, hfind]
    -- The entry that is named is past the end.
    case succeeds =>
      intro _ hall
      have hlt := hall index (mem_inReadingOrder.1 (List.mem_of_find?_eq_some hfind))
      have hpast : c.len ≤ index := by simpa [pastEnd] using List.find?_some hfind
      omega
  · obtain ⟨d, hd, hholds⟩ := refines_ofRows ((inReadingOrder entries invert).map
      (entryCell rows)) o
    rw [hok] at hx
    have hresult : x = .ok d := hx.trans hd
    constructor
    case tooLong => simp [hresult, hlen, hle]
    case outOfRange => exact fun _ index => by simp [hresult, hlen, hnone]
    case succeeds =>
      intro _ _
      refine ⟨d, hresult, ?_, ?_, fun i hi => h.get_of_entries hholds hnone hi⟩
      · rw [hholds.options_eq, h.options_eq]
      · rw [hholds.len_eq, List.length_map, length_inReadingOrder]

/-! ### Laws of selection -/

/-- Reading a list of entries back to front is reading the reversed list. -/
lemma selectEntries_reverse (rows : List (Cell k)) (entries : List (Option ℕ)) (invert : Bool) :
    selectEntries rows entries.reverse invert = selectEntries rows entries !invert := by
  rw [selectEntries, selectEntries, inReadingOrder_reverse, List.length_reverse]

/-- A list of indices selects certain rows if these are what it names. -/
lemma selectEntries_eq_ok_iff {indices : List ℕ} :
    selectEntries rows (indices.map some) false = .ok rows' ↔
      indices.length ≤ rows.length ∧
        List.Forall₂ (fun i cell => rows[i]? = some cell) indices rows' := by
  rw [selectEntries, List.length_map]
  split_ifs with hlen
  · simp [hlen]
  · simp only [not_lt.1 hlen, true_and, ← rowAt_eq_ok_iff]
    exact mapM_eq_ok_iff.trans List.forall₂_map_left_iff

/-- Selecting through two maps is selecting through the composed map. -/
lemma selectEntries_comp {first second : Array ℕ} {rows₁ rows₂ : List (Cell k)}
    (h₁ : selectEntries rows (first.toList.map some) false = .ok rows₁)
    (h₂ : selectEntries rows₁ (second.toList.map some) false = .ok rows₂) :
    selectEntries rows ((second.map fun i => first[i]!).toList.map some) false = .ok rows₂ := by
  rw [selectEntries_eq_ok_iff] at h₁ h₂ ⊢
  obtain ⟨hle₁, hrows₁⟩ := h₁
  obtain ⟨hle₂, hrows₂⟩ := h₂
  have hlength := hrows₁.length_eq
  rw [Array.toList_map, List.length_map, List.forall₂_map_left_iff]
  refine ⟨by omega, hrows₂.imp fun i cell hcell => ?_⟩
  obtain ⟨hi, rfl⟩ := List.getElem?_eq_some_iff.1 hcell
  have hi' : i < first.toList.length := by omega
  have hget := hrows₁.get hi' hi
  rw [Array.length_toList] at hi'
  rw [getElem!_pos first i hi']
  exact hget

/-- The rows in the order in which a permutation lists their numbers. -/
def permuted {n : ℕ} (σ : Equiv.Perm (Fin n)) (rows : List (Cell k)) : List (Cell k) :=
  List.ofFn fun i => rows.getD (σ i) none

lemma permuted_symm {n : ℕ} (hn : n = rows.length) (σ : Equiv.Perm (Fin n)) :
    permuted σ.symm (permuted σ rows) = rows := by
  refine List.ext_getElem (by simp [permuted, hn]) fun i hi hi' => ?_
  simp [permuted, List.getElem?_eq_getElem hi']

/-- The rows that a permutation names. -/
lemma selectEntries_permutation {n : ℕ} (hn : n = rows.length) (σ : Equiv.Perm (Fin n)) :
    selectEntries rows ((Array.ofFn fun i => (σ i : ℕ)).toList.map some) false =
      .ok (permuted σ rows) := by
  rw [selectEntries_eq_ok_iff]
  refine ⟨by simp [hn], List.forall₂_iff_get.2 ⟨by simp [permuted], fun i hi hi' => ?_⟩⟩
  have hlt : ∀ j : Fin n, (j : ℕ) < rows.length := fun j => hn ▸ j.isLt
  simp [permuted, hlt]

/-- A map that names every row once selects the rows in some order. -/
lemma selectEntries_of_perm (h : entries.Perm ((List.range rows.length).map some)) (invert : Bool) :
    ∃ rows', selectEntries rows entries invert = .ok rows' ∧ rows'.Perm rows := by
  have hlen : entries.length = rows.length := by simpa using h.length_eq
  have hread : (inReadingOrder entries invert).Perm ((List.range rows.length).map some) := by
    cases invert
    · exact h
    · exact (List.reverse_perm entries).trans h
  refine ⟨(inReadingOrder entries invert).map (entryCell rows), ?_, ?_⟩
  · rw [selectEntries, if_neg (by omega)]
    refine mapM_eq_ok fun entry hentry => mappedRow_eq_ok ?_
    obtain ⟨i, hi, rfl⟩ := List.mem_map.1 (hread.mem_iff.1 hentry)
    simpa [pastEnd] using hi
  · have hrows : ((List.range rows.length).map some).map (entryCell rows) = rows := by
      rw [List.map_map]
      exact map_getD_range rows
    exact (hread.map (entryCell rows)).trans (.of_eq hrows)

/-- What selecting rows satisfies as an operation on maps. -/
structure SelectionLaws (c : Container k) : Prop where
  /-- A column of indices without nulls selects what the list of its values selects. -/
  ofColumn : ∀ (map : Column .uint64) (invert : Bool), map.Reachable → map.nullCount = 0 →
    (c.selectByColumn map.container invert).result =
      (c.select (map.values.map UInt64.toNat).toArray invert).result
  /-- To read a map back to front is to read the reversed map. -/
  reverse : ∀ (map : Array ℕ) (invert : Bool),
    (c.select map !invert).result = (c.select map.reverse invert).result
  reverseColumn : ∀ (map reversed : Column .uint64) (invert : Bool), map.Reachable →
    reversed.Reachable → reversed.rows = map.rows.reverse →
    (c.selectByColumn map.container !invert).result =
      (c.selectByColumn reversed.container invert).result
  /-- To select from a selection is to select through the composed map. -/
  comp : ∀ (first second : Array ℕ) (d e : Container k), (c.select first false).result = .ok d →
    (d.select second false).result = .ok e →
    (c.select (second.map fun i => first[i]!) false).result = .ok e
  /-- The inverse of a permutation brings the rows back. -/
  inverse : ∀ σ : Equiv.Perm (Fin c.len), ∃ d e : Container k,
    (c.select (Array.ofFn fun i => (σ i : ℕ)) false).result = .ok d ∧
      (d.select (Array.ofFn fun i => (σ.symm i : ℕ)) false).result = .ok e ∧
      e.rows = c.rows ∧ e.options = c.options

/-- A selection has the rows that the map names. -/
lemma Holds.of_result_select (h : c.Holds o rows) {map : Array ℕ}
    (hd : (c.select map false).result = .ok d) :
    ∃ rows', selectEntries rows (map.toList.map some) false = .ok rows' ∧ d.Holds o rows' :=
  (refines_of_result (h.result_select map false)).exists_of_result_eq_ok hd

/-- Rows without a null are their values. -/
lemma map_some_filterMap_id (h : ∀ cell ∈ rows, ¬ cell.isNone) :
    (rows.filterMap id).map some = rows := by
  induction rows with
  | nil => rfl
  | cons cell rows ih =>
    rcases cell with _ | v
    · exact absurd rfl (h none List.mem_cons_self)
    · have hrest := ih fun cell hc => h cell (List.mem_cons_of_mem _ hc)
      exact congrArg (some v :: ·) hrest

/-- Without nulls, the entries of a column are its values. -/
lemma Holds.map_toNat_eq {map : Container .uint64} {cells : List (Cell .uint64)}
    (h : map.Holds o cells) (hnull : map.nullCount = 0) :
    cells.map (Option.map UInt64.toNat) = (map.values.map UInt64.toNat).map some := by
  rw [h.nullCount_eq, List.countP_eq_zero] at hnull
  have hcells := congrArg (List.map (Option.map UInt64.toNat)) (map_some_filterMap_id hnull)
  rw [values, h.rows_eq, ← hcells, List.map_map, List.map_map]
  rfl

lemma Holds.selectionLaws (h : c.Holds o rows) : SelectionLaws c := by
  constructor
  case ofColumn =>
    intro map invert hmap hnull
    rw [h.result_selectByColumn hmap.holds.2, h.result_select, hmap.holds.2.map_toNat_eq hnull]
    rfl
  case reverse =>
    intro map invert
    rw [h.result_select, h.result_select, ← selectEntries_reverse, ← List.map_reverse,
      Array.toList_reverse]
  case reverseColumn =>
    intro map reversed invert hmap hreversed hrows
    rw [h.result_selectByColumn hmap.holds.2, h.result_selectByColumn hreversed.holds.2, hrows,
      ← selectEntries_reverse, List.map_reverse]
  case comp =>
    intro first second d e hd he
    obtain ⟨rows₁, h₁, hholds⟩ := h.of_result_select hd
    rw [hholds.result_select] at he
    obtain ⟨rows₂, h₂, hbuilt⟩ := bind_eq_ok_iff.1 he
    rw [h.result_select, selectEntries_comp h₁ h₂]
    exact hbuilt
  case inverse =>
    intro σ
    obtain ⟨d, hd, hholds⟩ := refines_ofRows (permuted σ rows) o
    obtain ⟨e, he, hback⟩ := refines_ofRows rows o
    have hlength : c.len = (permuted σ rows).length := by simp [permuted]
    refine ⟨d, e, ?_, ?_, ?_, ?_⟩
    · rw [h.result_select, selectEntries_permutation h.len_eq]
      exact hd
    · rw [hholds.result_select, selectEntries_permutation hlength, permuted_symm h.len_eq]
      exact he
    · rw [hback.rows_eq, h.rows_eq]
    · rw [hback.options_eq, h.options_eq]

end Container

namespace Column

/-- **Selecting rows is reading a map.** On a reachable column, a list of indices and a column of
indices with nulls select the rows that their entries name, or are refused for their length or for
the first entry past the end in the order in which they are read; and selecting satisfies the laws
of reading maps. -/
theorem Reachable.selects {c : Column k} (h : c.Reachable) :
    (∀ (map : Array ℕ) (invert : Bool), c.container.SelectionOutcome (map.toList.map some) invert
      (c.container.select map invert).result) ∧
    (∀ (map : Column .uint64) (invert : Bool), map.Reachable →
      c.container.SelectionOutcome (map.rows.map (Option.map UInt64.toNat)) invert
        (c.container.selectByColumn map.container invert).result) ∧
    c.container.SelectionLaws := by
  have hholds := h.holds.2
  refine ⟨fun map invert => ?_, fun map invert hmap => ?_, hholds.selectionLaws⟩
  · exact hholds.selectionOutcome (hholds.result_select map invert)
  · exact hholds.selectionOutcome (hholds.result_selectByColumn hmap.holds.2 invert)

/-- Three rows in chunks of two, read back to front through a permutation of them. -/
theorem selects_of_three_rows : ∃ (c : Column .int32) (d : Container .int32),
    (ofRows "a" [some 1, none, some 3] (.withChunkRows .int32 2)).result = .ok c ∧
      (c.container.select #[2, 0, 1] true).result = .ok d ∧ d.rows = [none, some 1, some 3] ∧
      c.container.SelectionOutcome [some 2, some 0, some 1] true (.ok d) ∧
      c.container.SelectionLaws :=
  have h := Column.Reachable.selects (k := .int32)
    (.ofRows "a" [some 1, none, some 3] (.withChunkRows .int32 2) rfl)
  ⟨_, _, rfl, rfl, by decide, h.1 #[2, 0, 1] true, h.2.2⟩

end Column

end Columnar
