import Columnar.Proofs.Column.Groups
import Columnar.Proofs.Column.Rows
/-!
# Groups partition the rows

Grouping lists the number of every row once: those of the nulls apart, and those of the values in
the group of their key. One more row goes to the end of the list of its group, or begins a group
after all others, so that the numbers of every group are increasing and the groups are in the order
of their first rows, whose values represent them. Keys are compared, not values: the two zeros of a
floating-point kind are in one group, and so are all values that are not a number.
-/

namespace Columnar

variable {k : Kind} {rows : List (Cell k)} {i : ℕ} {x : Cell k} {p : Cell k → Bool}

/-- The numbers of the rows that pass a test, in order. -/
def rowNumbers (rows : List (Cell k)) (p : Cell k → Bool) : List ℕ :=
  (List.range rows.length).filter fun i => rows[i]?.any p

lemma mem_rowNumbers : i ∈ rowNumbers rows p ↔ ∃ x, rows[i]? = some x ∧ p x := by
  rw [rowNumbers, List.mem_filter, List.mem_range, Option.any_eq_true]
  refine ⟨And.right, fun h => ⟨?_, h⟩⟩
  obtain ⟨x, hx, -⟩ := h
  exact (List.getElem?_eq_some_iff.1 hx).1

lemma pairwise_rowNumbers (rows : List (Cell k)) (p : Cell k → Bool) :
    (rowNumbers rows p).Pairwise (· < ·) :=
  List.pairwise_lt_range.filter _

/-- One more row is the last one, if it passes. -/
lemma rowNumbers_concat (rows : List (Cell k)) (x : Cell k) (p : Cell k → Bool) :
    rowNumbers (rows ++ [x]) p = rowNumbers rows p ++ if p x then [rows.length] else [] := by
  rw [rowNumbers, List.length_append, List.length_singleton, List.range_succ, List.filter_append]
  congr 1
  · refine List.filter_congr fun i hi => ?_
    rw [List.getElem?_append_left (List.mem_range.1 hi)]
  · simp [List.filter_singleton]

/-- Whether a row has a value with a key. -/
def Cell.hasKey (key : ℤ) (x : Cell k) : Bool := x.map Kind.Value.key == some key

namespace Grouping

variable {g : Grouping k} {row : ℕ} {v : k.Value}

/-! ### One more row -/

namespace Progress

variable {q : Progress k}

/-- A row with a key that has occurred goes to the end of the group of its key. -/
lemma groups_add_of_mem (h : q.Indexed) (hv : Kind.Value.key v ∈ q.grouping.keys) (row : ℕ) :
    (q.add (some v, row)).grouping.nullRows = q.grouping.nullRows ∧
    (q.add (some v, row)).grouping.groups = q.grouping.groups.map fun group =>
      if Kind.Value.key group.1 = Kind.Value.key v then (group.1, group.2.push row) else group := by
  have hnodup := h.nodup_keys
  obtain ⟨position, hposition⟩ := (h.mem_keys_iff _).1 hv
  have hkey := (h _ _).1 hposition
  obtain ⟨⟨groups, nullRows⟩, positions⟩ := q
  simp only [add, hposition, true_and]
  refine Array.ext_getElem? fun j => ?_
  rw [Array.getElem?_modify, Array.getElem?_map]
  -- of all groups, the one at the position has the key
  have hgroup : ∀ group, groups[j]? = some group →
      (position = j ↔ Kind.Value.key group.1 = Kind.Value.key v) := by
    intro group hj
    have hkeyj : (keys ⟨groups, nullRows⟩)[j]? = some (Kind.Value.key group.1) := by
      rw [getElem?_keys, hj, Option.map_some]
    constructor
    · rintro rfl
      exact Option.some.inj (hkeyj.symm.trans hkey)
    · intro heq
      rw [heq, ← hkey] at hkeyj
      have hlt := (List.getElem?_eq_some_iff.1 hkey).1
      exact (List.getElem?_inj hlt hnodup).1 hkeyj.symm
  rcases hj : groups[j]? with _ | group
  · simp
  · by_cases heq : position = j
    · simp [heq, (hgroup group hj).1 heq]
    · simp [heq, mt (hgroup group hj).2 heq]

/-- A row with a new key begins a group. -/
lemma groups_add_of_notMem (h : q.Indexed) (hv : Kind.Value.key v ∉ q.grouping.keys) (row : ℕ) :
    (q.add (some v, row)).grouping.nullRows = q.grouping.nullRows ∧
    (q.add (some v, row)).grouping.groups = q.grouping.groups.push (v, #[row]) := by
  have hposition := h.positions_eq_none hv
  obtain ⟨⟨groups, nullRows⟩, positions⟩ := q
  simp [add, hposition]

end Progress

/-! ### The groups of a list of rows -/

/-- The groups list the rows: each group has the numbers of the rows with the key of its value, of
which the first one has this value, and the groups are in the order of these first rows. -/
structure Lists (rows : List (Cell k)) (g : Grouping k) : Prop where
  nullRows : g.nullRows.toList = rowNumbers rows Option.isNone
  numbers : ∀ group ∈ g.groups.toList,
    group.2.toList = rowNumbers rows (Cell.hasKey (Kind.Value.key group.1))
  first : ∀ group ∈ g.groups.toList, ∃ i, group.2[0]? = some i ∧ rows[i]? = some (some group.1)
  ordered : g.groups.toList.Pairwise fun x y =>
    ∃ i j, x.2[0]? = some i ∧ y.2[0]? = some j ∧ i < j

namespace Lists

lemma nil : Lists ([] : List (Cell k)) {} := by
  constructor <;> simp [rowNumbers]

/-- A null row is added to the nulls. -/
lemma add_none {q : Progress k} (h : Lists rows q.grouping) :
    Lists (rows ++ [none]) (q.add (none, rows.length)).grouping := by
  obtain ⟨⟨groups, nullRows⟩, positions⟩ := q
  constructor
  case ordered => exact h.ordered
  case nullRows =>
    rw [rowNumbers_concat, ← h.nullRows]
    simp [Progress.add]
  case numbers =>
    intro group hgroup
    rw [rowNumbers_concat, ← h.numbers group hgroup]
    simp [Cell.hasKey]
  case first =>
    intro group hgroup
    obtain ⟨i, hi, hrow⟩ := h.first group hgroup
    exact ⟨i, hi, Column.getElem?_concat_eq_some_iff.2 (.inl hrow)⟩

/-- A number after a first one leaves it the first. -/
lemma getElem?_zero_push {numbers : Array ℕ} (h : numbers[0]? = some i) (j : ℕ) :
    (numbers.push j)[0]? = some i := by
  have hpos : 0 < numbers.size := (Array.getElem?_eq_some_iff.1 h).1
  rw [Array.getElem?_push, if_neg hpos.ne, h]

/-- A row with a key that has occurred is added to the group of its key. -/
lemma add_of_mem {q : Progress k} (h : Lists rows q.grouping) (hq : q.Indexed)
    (hv : Kind.Value.key v ∈ q.grouping.keys) :
    Lists (rows ++ [some v]) (q.add (some v, rows.length)).grouping := by
  obtain ⟨hnull, hgroups⟩ := Progress.groups_add_of_mem hq hv rows.length
  -- every group comes from one that has the same value and the same first row
  have hfirst : ∀ group : k.Value × Array ℕ, ∀ i, group.2[0]? = some i →
      (if Kind.Value.key group.1 = Kind.Value.key v then (group.1, group.2.push rows.length)
        else group).2[0]? = some i := by
    intro group i hi
    split_ifs with heq
    · exact getElem?_zero_push hi _
    · exact hi
  constructor
  case nullRows =>
    rw [hnull, h.nullRows, rowNumbers_concat]
    simp
  case numbers =>
    intro group hgroup
    rw [hgroups, Array.toList_map, List.mem_map] at hgroup
    obtain ⟨group, hmem, rfl⟩ := hgroup
    have hnumbers := h.numbers group hmem
    split_ifs with heq
    · simp [rowNumbers_concat, hnumbers, Cell.hasKey, heq]
    · simp [rowNumbers_concat, hnumbers, Cell.hasKey, Ne.symm heq]
  case first =>
    intro group hgroup
    rw [hgroups, Array.toList_map, List.mem_map] at hgroup
    obtain ⟨group, hmem, rfl⟩ := hgroup
    obtain ⟨i, hi, hrow⟩ := h.first group hmem
    refine ⟨i, hfirst group i hi, ?_⟩
    rw [apply_ite Prod.fst, ite_self]
    exact Column.getElem?_concat_eq_some_iff.2 (.inl hrow)
  case ordered =>
    rw [hgroups, Array.toList_map, List.pairwise_map]
    refine h.ordered.imp fun {x y} hxy => ?_
    obtain ⟨i, j, hi, hj, hij⟩ := hxy
    exact ⟨i, j, hfirst x i hi, hfirst y j hj, hij⟩

/-- A row with a new key begins a group after all others. -/
lemma add_of_notMem {q : Progress k} (h : Lists rows q.grouping) (hq : q.Indexed)
    (hcovers : ∀ v, some v ∈ rows → Kind.Value.key v ∈ q.grouping.keys)
    (hv : Kind.Value.key v ∉ q.grouping.keys) :
    Lists (rows ++ [some v]) (q.add (some v, rows.length)).grouping := by
  obtain ⟨hnull, hgroups⟩ := Progress.groups_add_of_notMem hq hv rows.length
  have hlist : (q.add (some v, rows.length)).grouping.groups.toList
      = q.grouping.groups.toList ++ [(v, #[rows.length])] := by
    rw [hgroups, Array.toList_push]
  have hother : ∀ group ∈ q.grouping.groups.toList,
      Kind.Value.key v ≠ Kind.Value.key group.1 := fun group hmem heq =>
    hv (heq ▸ List.mem_map_of_mem hmem)
  constructor
  case nullRows =>
    rw [hnull, h.nullRows, rowNumbers_concat]
    simp
  case numbers =>
    intro group hgroup
    rw [hlist, List.mem_append, List.mem_singleton] at hgroup
    rcases hgroup with hmem | rfl
    · rw [rowNumbers_concat, h.numbers group hmem]
      simp [Cell.hasKey, hother group hmem]
    · -- no row before this one has the key
      have hnil : rowNumbers rows (Cell.hasKey (Kind.Value.key v)) = [] := by
        refine List.eq_nil_iff_forall_not_mem.2 fun i hi => ?_
        obtain ⟨x, hx, hkey⟩ := mem_rowNumbers.1 hi
        rw [Cell.hasKey, beq_iff_eq] at hkey
        obtain ⟨w, rfl, hw⟩ := Option.map_eq_some_iff.1 hkey
        exact hv (hw ▸ hcovers w (List.mem_of_getElem? hx))
      rw [rowNumbers_concat, hnil]
      simp [Cell.hasKey]
  case first =>
    intro group hgroup
    rw [hlist, List.mem_append, List.mem_singleton] at hgroup
    rcases hgroup with hmem | rfl
    · obtain ⟨i, hi, hrow⟩ := h.first group hmem
      exact ⟨i, hi, Column.getElem?_concat_eq_some_iff.2 (.inl hrow)⟩
    · exact ⟨rows.length, rfl, by simp⟩
  case ordered =>
    rw [hlist, List.pairwise_append]
    refine ⟨h.ordered, List.pairwise_singleton _ _, fun x hx y hy => ?_⟩
    obtain rfl := List.mem_singleton.1 hy
    obtain ⟨i, hi, hrow⟩ := h.first x hx
    exact ⟨i, rows.length, hi, rfl, (List.getElem?_eq_some_iff.1 hrow).1⟩

/-- One more row keeps the lists right if the keys of the rows before it are those of groups. -/
lemma add {q : Progress k} (h : Lists rows q.grouping) (hq : q.Indexed)
    (hcovers : ∀ v, some v ∈ rows → Kind.Value.key v ∈ q.grouping.keys) (x : Cell k) :
    Lists (rows ++ [x]) (q.add (x, rows.length)).grouping := by
  rcases x with _ | v
  · exact h.add_none
  by_cases hv : Kind.Value.key v ∈ q.grouping.keys
  · exact h.add_of_mem hq hv
  · exact h.add_of_notMem hq hcovers hv

end Lists

/-- A value among some rows has the key of a group of theirs. -/
lemma key_mem_keys_ofRows (hv : some v ∈ rows) : Kind.Value.key v ∈ (ofRows rows).keys :=
  ((keys_ofRows rows).2 _).2 ⟨v, hv, rfl⟩

/-- The groups of some rows list them, by induction on the rows from their end. -/
theorem lists_ofRows (rows : List (Cell k)) : Lists rows (ofRows rows) := by
  induction rows using List.reverseRecOn with
  | nil => exact .nil
  | append_singleton rows x ih =>
    obtain ⟨hindexed, -⟩ := Progress.indexed_empty.foldl_add (k := k) rows.zipIdx
    rw [ofRows, List.zipIdx_append, List.foldl_append, Nat.zero_add]
    exact ih.add hindexed (fun _ => key_mem_keys_ofRows) x

end Grouping

namespace Column

variable {c : Column k} {g : Grouping k}

/-- The groups list the rows of a column, every row once. -/
structure PartitionedBy (c : Column k) (g : Grouping k) : Prop where
  mem_nullRows : ∀ i, i ∈ g.nullRows ↔ c.get i = .ok none
  pairwise_nullRows : g.nullRows.toList.Pairwise (· < ·)
  /-- Every row with a value is in one group. -/
  covered : ∀ i v, c.get i = .ok (some v) →
    ∃! j : ℕ, ∃ group, g.groups[j]? = some group ∧ i ∈ group.2
  /-- The rows of a group are those with the key of its value. -/
  mem_group : ∀ group ∈ g.groups, ∀ i, i ∈ group.2 ↔
    ∃ v, c.get i = .ok (some v) ∧ Kind.Value.key v = Kind.Value.key group.1
  pairwise_group : ∀ group ∈ g.groups, group.2.toList.Pairwise (· < ·)
  /-- A group has a first row, with its value. -/
  first : ∀ group ∈ g.groups, ∃ i, group.2[0]? = some i ∧ c.get i = .ok (some group.1)
  nodup_keys : g.keys.Nodup
  /-- The first row of a group is before those of the groups after it. -/
  ordered : g.groups.toList.Pairwise fun x y =>
    ∃ i j, x.2[0]? = some i ∧ y.2[0]? = some j ∧ i < j

/-- **Groups partition the rows.** For every column, the null rows are listed in order, and every
other row is in one group: that of the rows with its key, in order, of which the first one has the
value that stands for the group. Different groups have different keys, and are in the order of their
first rows. -/
theorem Reachable.partitionedBy_groups (h : c.Reachable) : c.PartitionedBy c.groups := by
  have hlists : Grouping.Lists c.rows c.groups := Grouping.lists_ofRows c.rows
  obtain ⟨hnodup, -⟩ : c.groups.keys.Nodup ∧ _ := Grouping.keys_ofRows c.rows
  have hget := fun (i : ℕ) (x : Cell k) => h.holds.get_eq_ok_iff (i := i) (x := x)
  have hgroup : ∀ group ∈ c.groups.groups, ∀ i, i ∈ group.2 ↔
      ∃ v, c.get i = .ok (some v) ∧ Kind.Value.key v = Kind.Value.key group.1 := by
    intro group hmem i
    rw [← Array.mem_toList_iff, hlists.numbers group hmem.val, mem_rowNumbers]
    simp only [hget, Cell.hasKey, beq_iff_eq, Option.map_eq_some_iff]
    constructor
    · rintro ⟨_, hi, v, rfl, hkey⟩
      exact ⟨v, hi, hkey⟩
    · rintro ⟨v, hi, hkey⟩
      exact ⟨_, hi, v, rfl, hkey⟩
  constructor
  case mem_group => exact hgroup
  case nodup_keys => exact hnodup
  case ordered => exact hlists.ordered
  case mem_nullRows =>
    intro i
    rw [← Array.mem_toList_iff, hlists.nullRows, mem_rowNumbers, hget]
    simp
  case pairwise_nullRows =>
    rw [hlists.nullRows]
    exact pairwise_rowNumbers _ _
  case covered =>
    intro i v hi
    -- the group is at the position of the key of the row, and there is one
    obtain ⟨j, hj⟩ := List.mem_iff_getElem?.1
      (Grouping.key_mem_keys_ofRows (List.mem_of_getElem? ((hget i _).1 hi)))
    have hlt := (List.getElem?_eq_some_iff.1 hj).1
    obtain ⟨group, hposition, hkey⟩ := Option.map_eq_some_iff.1
      ((Grouping.getElem?_keys c.groups j).symm.trans hj)
    refine ⟨j, ⟨group, hposition,
      (hgroup group (Array.mem_of_getElem? hposition) i).2 ⟨v, hi, hkey.symm⟩⟩, ?_⟩
    rintro j' ⟨group', hposition', hmem⟩
    obtain ⟨v', hi', hkey'⟩ := (hgroup group' (Array.mem_of_getElem? hposition') i).1 hmem
    obtain rfl : v' = v := by
      rw [hi] at hi'
      exact (Option.some.inj (Except.ok.inj hi')).symm
    have hj' : c.groups.keys[j']? = some (Kind.Value.key v') := by
      rw [Grouping.getElem?_keys, hposition', Option.map_some, hkey']
    exact ((List.getElem?_inj hlt hnodup).1 (hj.trans hj'.symm)).symm
  case pairwise_group =>
    intro group hmem
    rw [hlists.numbers group hmem.val]
    exact pairwise_rowNumbers _ _
  case first =>
    intro group hmem
    obtain ⟨i, hi, hrow⟩ := hlists.first group hmem.val
    exact ⟨i, hi, (hget i _).2 hrow⟩

/-- The values 7 and 2 come again after a null, and the group of 7 is the first one. -/
theorem partitionedBy_groups_of_repeated :
    ∃ c : Column .int32,
      (ofRows "a" [some 7, some 2, none, some 7, some 2, some 5] (.withChunkRows .int32 2)).result
          = .ok c ∧
        c.rows = [some 7, some 2, none, some 7, some 2, some 5] ∧
        c.PartitionedBy c.groups :=
  ⟨_, rfl, by decide, Reachable.partitionedBy_groups
    (.ofRows "a" [some 7, some 2, none, some 7, some 2, some 5] (.withChunkRows .int32 2) rfl)⟩

end Column

end Columnar
