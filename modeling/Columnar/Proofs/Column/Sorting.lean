import Columnar.Proofs.Column.Rows
/-!
# Sorting is stable and puts nulls last

`SortsRows ascending rows order` says that `order` lists the numbers of all rows, and lists them in
the order in which the rows stand when they are sorted: values by their keys, in either direction,
rows of one key by their numbers, and nulls after all values, by their numbers too. Any two row
numbers are in this order one way and not the other, so that there is only one such list. It is the
list that a column is sorted by. In a sorted column the rows are in order as they stand, and sorting
it again changes nothing.

Row numbers are kept as 64-bit words, for which the number of rows must not exceed `2 ^ 64`.
-/

namespace Columnar

/-- A sort that is transitive and total keeps the order of the elements that it does not tell
apart. -/
lemma pairwise_mergeSort_stable {α : Type} {le : α → α → Bool} {before : α → α → Prop}
    (trans : ∀ a b c, le a b = true → le b c = true → le a c = true)
    (total : ∀ a b, (le a b || le b a) = true) {l : List α} (h : l.Pairwise before) :
    (l.mergeSort le).Pairwise fun a b => le a b = true ∧ (le b a = true → before a b) := by
  induction l with
  | nil => simp
  | cons a l ih =>
    obtain ⟨hfirst, hrest⟩ := List.pairwise_cons.1 h
    -- the first element is put before those that come after it in the list and are not less
    obtain ⟨l₁, l₂, hsort, hparts, hless⟩ := List.mergeSort_cons trans total a l
    have hsorted := List.pairwise_mergeSort trans total (a :: l)
    have ih := ih hrest
    rw [hsort, List.pairwise_append, List.pairwise_cons] at hsorted
    rw [hparts, List.pairwise_append] at ih
    obtain ⟨-, ⟨hafter, -⟩, hbefore⟩ := hsorted
    obtain ⟨hl₁, hl₂, hcross⟩ := ih
    rw [hsort, List.pairwise_append, List.pairwise_cons]
    refine ⟨hl₁, ⟨fun b hb => ⟨hafter b hb, fun _ => hfirst b ?_⟩, hl₂⟩, fun b hb c hc => ?_⟩
    · have hmem : b ∈ l.mergeSort le := by
        rw [hparts]
        exact List.mem_append_right _ hb
      exact List.mem_mergeSort.1 hmem
    · rcases List.mem_cons.1 hc with rfl | hc
      · refine ⟨hbefore b hb c List.mem_cons_self, fun hle => ?_⟩
        have := hless b hb
        rw [hle] at this
        cases this
      · exact hcross b hb c hc

namespace Column

variable {k : Kind} {name : String} {o : Options} {c : Column k} {rows sorted : List (Cell k)}
  {order : List ℕ} {ascending : Bool}

/-! ### The order of rows -/

/-- Whether a key comes strictly before another one. -/
def KeyBefore (ascending : Bool) (a b : ℤ) : Prop := if ascending then a < b else b < a

/-- Of two rows and their numbers, the first row comes first: by the keys of the values and, if the
keys are equal, by the numbers. Values come before nulls, and nulls by their numbers. -/
def RowBefore (ascending : Bool) : Cell k × ℕ → Cell k × ℕ → Prop
  | (some v, i), (some w, j) =>
    KeyBefore ascending (Kind.Value.key v) (Kind.Value.key w) ∨
      Kind.Value.key v = Kind.Value.key w ∧ i < j
  | (some _, _), (none, _) => True
  | (none, _), (some _, _) => False
  | (none, i), (none, j) => i < j

/-- The comparison that a column is sorted by lets a key stand before another one unless it has to
stand after it. -/
lemma keyPrecedes_iff {a b : ℤ} :
    keyPrecedes ascending a b = true ↔ ¬ KeyBefore ascending b a := by
  cases ascending <;> simp [keyPrecedes, KeyBefore]

/-- The list has the numbers of all rows, in the order of the rows. -/
structure SortsRows (ascending : Bool) (rows : List (Cell k)) (order : List ℕ) : Prop where
  perm : order.Perm (List.range rows.length)
  pairwise : order.Pairwise fun i j =>
    ∀ x ∈ rows[i]?, ∀ y ∈ rows[j]?, RowBefore ascending (x, i) (y, j)

lemma RowBefore.asymm {x y : Cell k × ℕ} (h : RowBefore ascending x y) :
    ¬ RowBefore ascending y x := by
  obtain ⟨_ | v, i⟩ := x <;> obtain ⟨_ | w, j⟩ := y
  · exact Nat.lt_asymm h
  · exact h.elim
  · exact not_false
  · rw [RowBefore, KeyBefore] at h ⊢
    split_ifs at h ⊢ <;> omega

/-- The row that comes first still does if the rows get other numbers in its favour. -/
lemma RowBefore.renumber {x y : Cell k} {i j i' j' : ℕ} (h : RowBefore ascending (x, i) (y, j))
    (hij : i' < j') : RowBefore ascending (x, i') (y, j') := by
  rcases x with _ | v <;> rcases y with _ | w
  · exact hij
  · exact h
  · exact h
  · exact h.imp_right fun heq => ⟨heq.1, hij⟩

namespace SortsRows

lemma length_eq (h : SortsRows ascending rows order) : order.length = rows.length := by
  rw [h.perm.length_eq, List.length_range]

lemma lt_of_mem (h : SortsRows ascending rows order) {i : ℕ} (hi : i ∈ order) : i < rows.length :=
  List.mem_range.1 (h.perm.mem_iff.1 hi)

/-- There is only one list of the row numbers in order. -/
lemma unique {order' : List ℕ} (h : SortsRows ascending rows order)
    (h' : SortsRows ascending rows order') : order = order' := by
  refine List.Perm.eq_of_pairwise (fun i j hi hj hij hji => ?_) h.pairwise h'.pairwise
    (h.perm.trans h'.perm.symm)
  have hx := List.getElem?_eq_getElem (h.lt_of_mem hi)
  have hy := List.getElem?_eq_getElem (h'.lt_of_mem hj)
  exact absurd (hji _ hy _ hx) (hij _ hx _ hy).asymm

/-- In the rows that are listed, one after the other, the row numbers are in order. -/
lemma range (h : SortsRows ascending rows order)
    (hsorted : List.Forall₂ (fun i cell => rows[i]? = some cell) order sorted) :
    SortsRows ascending sorted (List.range sorted.length) := by
  refine ⟨List.Perm.refl _, ?_⟩
  have hlen := hsorted.length_eq
  refine List.pairwise_lt_range.imp fun {i j} hij x hx y hy => ?_
  obtain ⟨hi, rfl⟩ := List.getElem?_eq_some_iff.1 hx
  obtain ⟨hj, rfl⟩ := List.getElem?_eq_some_iff.1 hy
  exact (List.pairwise_iff_getElem.1 h.pairwise i j (by omega) (by omega) hij _
    (hsorted.get (by omega) hi) _ (hsorted.get (by omega) hj)).renumber hij

end SortsRows

/-! ### The list that a column is sorted by -/

/-- The keys of the values among some numbered rows, with their row numbers. -/
def numberedKeys (numbered : List (Cell k × ℕ)) : List (ℤ × ℕ) :=
  numbered.filterMap fun (cell, row) => cell.map fun v => (Kind.Value.key v, row)

/-- The row numbers of the nulls among some numbered rows. -/
def nullNumbers (numbered : List (Cell k × ℕ)) : List ℕ :=
  numbered.filterMap fun (cell, row) => if cell.isNone then some row else none

lemma sortedOrder_eq (c : Column k) (ascending : Bool) :
    c.sortedOrder ascending =
      ((numberedKeys c.rows.zipIdx).mergeSort fun a b => keyPrecedes ascending a.1 b.1).map Prod.snd
        ++ nullNumbers c.rows.zipIdx := rfl

lemma mem_numberedKeys_zipIdx {key : ℤ} {i : ℕ} :
    (key, i) ∈ numberedKeys rows.zipIdx ↔
      ∃ v, rows[i]? = some (some v) ∧ Kind.Value.key v = key := by
  simp only [numberedKeys, List.mem_filterMap, List.mem_zipIdx_iff_getElem?, Prod.exists,
    Option.map_eq_some_iff, Prod.mk.injEq]
  constructor
  · rintro ⟨_, _, hrow, v, rfl, rfl, rfl⟩
    exact ⟨v, hrow, rfl⟩
  · rintro ⟨v, hrow, rfl⟩
    exact ⟨some v, i, hrow, v, rfl, rfl, rfl⟩

lemma mem_nullNumbers_zipIdx {i : ℕ} :
    i ∈ nullNumbers rows.zipIdx ↔ rows[i]? = some none := by
  simp only [nullNumbers, List.mem_filterMap, List.mem_zipIdx_iff_getElem?, Prod.exists]
  constructor
  · rintro ⟨cell, row, hrow, h⟩
    split_ifs at h with hnull
    cases h
    rwa [Option.isNone_iff_eq_none.1 hnull] at hrow
  · intro hrow
    exact ⟨none, i, hrow, rfl⟩

/-- Every row is a value or null. -/
lemma perm_numberedKeys_append_nullNumbers (numbered : List (Cell k × ℕ)) :
    ((numberedKeys numbered).map Prod.snd ++ nullNumbers numbered).Perm
      (numbered.map Prod.snd) := by
  induction numbered with
  | nil => exact List.Perm.refl _
  | cons x numbered ih =>
    obtain ⟨_ | v, row⟩ := x
    · exact List.perm_middle.trans (ih.cons row)
    · exact ih.cons row

/-- The rows are numbered in their order. -/
lemma pairwise_zipIdx (rows : List (Cell k)) :
    rows.zipIdx.Pairwise fun x y => x.2 < y.2 := by
  have h : (rows.zipIdx.map Prod.snd).Pairwise (· < ·) := by
    rw [List.zipIdx_map_snd]
    exact List.pairwise_lt_range' 1
  exact List.pairwise_map.1 h

lemma pairwise_nullNumbers_zipIdx (rows : List (Cell k)) :
    (nullNumbers rows.zipIdx).Pairwise (· < ·) := by
  refine (pairwise_zipIdx rows).filterMap _ fun ⟨x, i⟩ ⟨y, j⟩ hij a ha b hb => ?_
  dsimp only at ha hb
  split_ifs at ha hb
  cases ha
  cases hb
  exact hij

/-- The values come in the order of their keys, and those of one key in the order of their rows. -/
lemma pairwise_mergeSort_numberedKeys (rows : List (Cell k)) (ascending : Bool) :
    ((numberedKeys rows.zipIdx).mergeSort fun a b => keyPrecedes ascending a.1 b.1).Pairwise
      fun a b => KeyBefore ascending a.1 b.1 ∨ a.1 = b.1 ∧ a.2 < b.2 := by
  have hrows : (numberedKeys rows.zipIdx).Pairwise fun a b => a.2 < b.2 := by
    refine (pairwise_zipIdx rows).filterMap _ fun x y hxy a ha b hb => ?_
    obtain ⟨v, -, rfl⟩ := Option.map_eq_some_iff.1 ha
    obtain ⟨w, -, rfl⟩ := Option.map_eq_some_iff.1 hb
    exact hxy
  refine (pairwise_mergeSort_stable ?_ ?_ hrows).imp fun {a b} h => ?_
  · intro a b c hab hbc
    rw [keyPrecedes_iff, KeyBefore] at hab hbc ⊢
    split_ifs at hab hbc ⊢ <;> omega
  · intro a b
    rw [Bool.or_eq_true, keyPrecedes_iff, keyPrecedes_iff, KeyBefore, KeyBefore]
    split_ifs <;> omega
  · obtain ⟨hle, hstable⟩ := h
    rw [keyPrecedes_iff, KeyBefore] at hle hstable
    rw [KeyBefore]
    split_ifs at hle hstable ⊢ <;> omega

/-- A column is sorted by the list of its row numbers in order. -/
theorem sortsRows_sortedOrder (c : Column k) (ascending : Bool) :
    SortsRows ascending c.rows (c.sortedOrder ascending) := by
  rw [sortedOrder_eq]
  set keys := numberedKeys c.rows.zipIdx with hkeys
  constructor
  · have hperm := perm_numberedKeys_append_nullNumbers c.rows.zipIdx
    rw [List.zipIdx_map_snd, ← List.range_eq_range'] at hperm
    exact (((List.mergeSort_perm keys _).map Prod.snd).append_right _).trans hperm
  · have hvalue : ∀ a ∈ keys.mergeSort fun a b => keyPrecedes ascending a.1 b.1,
        ∃ v, c.rows[a.2]? = some (some v) ∧ Kind.Value.key v = a.1 := fun a ha =>
      mem_numberedKeys_zipIdx.1 (List.mem_mergeSort.1 ha)
    rw [List.pairwise_append, List.pairwise_map]
    refine ⟨?_, ?_, ?_⟩
    · refine (pairwise_mergeSort_numberedKeys c.rows ascending).imp_of_mem ?_
      intro a b ha hb hab x hx y hy
      obtain ⟨v, hv, hkey⟩ := hvalue a ha
      obtain ⟨w, hw, hkey'⟩ := hvalue b hb
      obtain rfl := Option.mem_unique hx hv
      obtain rfl := Option.mem_unique hy hw
      rwa [RowBefore, hkey, hkey']
    · refine (pairwise_nullNumbers_zipIdx c.rows).imp_of_mem fun {i j} hi hj hij x hx y hy => ?_
      obtain rfl := Option.mem_unique hx (mem_nullNumbers_zipIdx.1 hi)
      obtain rfl := Option.mem_unique hy (mem_nullNumbers_zipIdx.1 hj)
      exact hij
    · rintro i hi j hj x hx y hy
      obtain ⟨a, ha, rfl⟩ := List.mem_map.1 hi
      obtain ⟨v, hv, -⟩ := hvalue a ha
      obtain rfl := Option.mem_unique hx hv
      obtain rfl := Option.mem_unique hy (mem_nullNumbers_zipIdx.1 hj)
      trivial

/-! ### Sorted columns -/

namespace SortsRows

/-- The rows in order. -/
lemma forall₂_map_getD (h : SortsRows ascending rows order) :
    List.Forall₂ (fun i cell => rows[i]? = some cell) order
      (order.map fun i => rows.getD i none) := by
  rw [List.forall₂_map_right_iff, List.forall₂_same]
  intro i hi
  have hlt := h.lt_of_mem hi
  rw [List.getD_eq_getElem _ _ hlt, List.getElem?_eq_getElem hlt]

lemma perm_map_getD (h : SortsRows ascending rows order) :
    (order.map fun i => rows.getD i none).Perm rows := by
  have hperm := h.perm.map fun i => rows.getD i none
  rwa [map_getD_range] at hperm

/-- The words of the row numbers, read as a map. -/
lemma entryAt_map_ofNat (h : SortsRows ascending rows order) (hlen : rows.length ≤ 2 ^ 64)
    {p : ℕ} (hp : p < order.length) :
    Container.entryAt (order.map fun row => some (UInt64.ofNat row)) p = .ok (some order[p]) := by
  have hlt := h.lt_of_mem (List.getElem_mem hp)
  have hword : (UInt64.ofNat order[p]).toNat = order[p] :=
    UInt64.toNat_ofNat_of_lt' (hlt.trans_le hlen)
  rw [Container.entryAt, rowAt, dif_pos (by simpa using hp), List.getElem_map]
  show Except.ok (some (UInt64.ofNat order[p]).toNat) = _
  rw [hword]

/-- Selecting rows through their numbers in order gives the rows in order. -/
lemma selectRows_eq (h : SortsRows ascending rows order) (hlen : rows.length ≤ 2 ^ 64) :
    Container.selectRows rows (order.map fun row => some (UInt64.ofNat row)).length false
        (Container.entryAt (order.map fun row => some (UInt64.ofNat row)))
      = .ok (order.map fun i => rows.getD i none) := by
  have hrow : ∀ p ∈ List.range order.length,
      (Container.entryAt (order.map fun row => some (UInt64.ofNat row)) p
        >>= Container.mappedRow rows) = .ok (rows.getD (order.getD p 0) none) := by
    intro p hp
    have hp := List.mem_range.1 hp
    have hlt := h.lt_of_mem (List.getElem_mem hp)
    rw [h.entryAt_map_ofNat hlen hp, List.getD_eq_getElem _ _ hp, List.getD_eq_getElem _ _ hlt]
    exact rowAt_eq_ok_iff.2 (List.getElem?_eq_getElem hlt)
  have hmap : (List.range order.length).map (fun p => rows.getD (order.getD p 0) none)
      = order.map fun i => rows.getD i none :=
    List.ext_getElem (by simp) fun p _ hp => by
      have hp : p < order.length := by simpa using hp
      simp [List.getElem?_eq_getElem hp]
  rw [Container.selectRows, List.length_map, if_neg (by rw [h.length_eq]; omega),
    Container.readingOrder, if_neg Bool.false_ne_true, mapM_eq_ok hrow, hmap]

end SortsRows

/-- Sorting a column puts its rows in order. -/
lemma Holds.sort_eq (h : c.Holds name o rows) (hlen : rows.length ≤ 2 ^ 64) (ascending : Bool) :
    ∃ sorted, (c.sort ascending).result = .ok sorted ∧
      sorted.Holds name o ((c.sortedOrder ascending).map fun i => rows.getD i none) := by
  have horder := c.sortsRows_sortedOrder ascending
  rw [h.rows_eq] at horder
  have hsort := refines_sort h ascending
  rwa [horder.selectRows_eq hlen] at hsort

/-- **Sorting is stable and puts nulls last.** In either direction, the row numbers of a column are
sorted into the one list in which the values come first, by their keys, the rows of one key in their
order and the nulls in theirs. The sorted column has the rows in the order of this list, under the
name and options of the column and with as many nulls. Sorting it again changes nothing. -/
theorem Reachable.sort_stable (h : c.Reachable) (hlen : c.len ≤ 2 ^ 64) (ascending : Bool) :
    ∃ (numbers : List ℕ) (order : Column .uint64) (sorted again : Column k),
      SortsRows ascending c.rows numbers ∧
      (c.argsort ascending).result = .ok order ∧
      order.rows.map (Option.map UInt64.toNat) = numbers.map some ∧
      (c.sort ascending).result = .ok sorted ∧
      List.Forall₂ (fun i cell => c.rows[i]? = some cell) numbers sorted.rows ∧
      sorted.name = c.name ∧ sorted.options = c.options ∧ sorted.nullCount = c.nullCount ∧
      (sorted.sort ascending).result = .ok again ∧ again.rows = sorted.rows := by
  have hlen : c.rows.length ≤ 2 ^ 64 := by rwa [← h.holds.len_eq]
  have hnumbers := c.sortsRows_sortedOrder ascending
  have hrows := hnumbers.forall₂_map_getD
  obtain ⟨order, horder, hentries⟩ := refines_argsort h.holds ascending
  obtain ⟨sorted, hsorted, hholds⟩ := h.holds.sort_eq hlen ascending
  have hlen' : sorted.rows.length ≤ 2 ^ 64 := by
    rwa [hholds.rows_eq, hnumbers.perm_map_getD.length_eq]
  obtain ⟨again, hagain, hholds'⟩ := (hholds.rows_eq ▸ hholds).sort_eq hlen' ascending
  -- the rows of the sorted column are in order, so that it is sorted by the numbers as they come
  have hidentity : sorted.sortedOrder ascending = List.range sorted.rows.length :=
    (sorted.sortsRows_sortedOrder ascending).unique (hnumbers.range (hholds.rows_eq ▸ hrows))
  refine ⟨_, order, sorted, again, hnumbers, horder, ?_, hsorted, hholds.rows_eq ▸ hrows, hholds.1,
    hholds.2.options_eq, ?_, hagain, ?_⟩
  · rw [hentries.rows_eq, List.map_map]
    refine List.map_congr_left fun i hi => ?_
    exact congrArg some (UInt64.toNat_ofNat_of_lt' ((hnumbers.lt_of_mem hi).trans_le hlen))
  · show sorted.container.nullCount = c.container.nullCount
    rw [hholds.2.nullCount_eq, h.holds.2.nullCount_eq]
    exact hnumbers.perm_map_getD.countP_eq _
  · rw [hholds'.rows_eq, hidentity, map_getD_range]

/-- Sorted downwards, the two rows of the greatest value keep their order, and so do the nulls. -/
theorem sort_stable_of_ties : ∃ c : Column .int32,
    (ofRows "a" [some 1, none, some 3, some 3, none] {}).result = .ok c ∧ c.len ≤ 2 ^ 64 ∧
      ∃ (order : Column .uint64) (sorted again : Column .int32),
        (c.argsort false).result = .ok order ∧
        order.rows.map (Option.map UInt64.toNat) = [some 2, some 3, some 0, some 1, some 4] ∧
        (c.sort false).result = .ok sorted ∧ sorted.rows = [some 3, some 3, some 1, none, none] ∧
        (sorted.sort false).result = .ok again ∧ again.rows = sorted.rows := by
  obtain ⟨c, hc, hrows, hlen⟩ : ∃ c : Column .int32,
      (ofRows "a" [some 1, none, some 3, some 3, none] {}).result = .ok c ∧
        c.rows = [some 1, none, some 3, some 3, none] ∧ c.len = 5 := ⟨_, rfl, rfl, rfl⟩
  have hlen : c.len ≤ 2 ^ 64 := by omega
  obtain ⟨numbers, order, sorted, again, hnumbers, horder, hentries, hsorted, hselected, -, -, -,
    hagain, hsame⟩ := Reachable.sort_stable (.ofRows "a" _ {} hc) hlen false
  rw [hrows] at hnumbers hselected
  have hlist : SortsRows false ([some 1, none, some 3, some 3, none] : List (Cell .int32))
      [2, 3, 0, 1, 4] := by
    have hkeys : Element.key (1 : Int32) < Element.key (3 : Int32) := by decide
    exact ⟨by decide, by simpa [RowBefore, KeyBefore, Kind.Value.key] using hkeys⟩
  obtain rfl := hnumbers.unique hlist
  refine ⟨c, hc, hlen, order, sorted, again, horder, hentries, hsorted, ?_, hagain, hsame⟩
  simpa [List.forall₂_cons_left_iff, eq_comm] using hselected

end Column

end Columnar
