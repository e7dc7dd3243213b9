import Mathlib
import Columnar.Column.Group
/-!
# The keys of groups

While rows are grouped, the position of the group of every key that has occurred is kept beside the
groups. As long as the positions are right, a row with a key that has occurred goes to the group of
this key, and a row with a new key to a group of its own, so that every key that occurs is the key
of one group.
-/

namespace Columnar.Grouping

variable {k : Kind}

/-- The keys of the groups, in order. -/
def keys (g : Grouping k) : List ℤ := g.groups.toList.map fun group => Kind.Value.key group.1

lemma length_keys (g : Grouping k) : g.keys.length = g.groups.size := by
  rw [keys, List.length_map, Array.length_toList]

lemma getElem?_keys (g : Grouping k) (i : ℕ) :
    g.keys[i]? = g.groups[i]?.map fun group => Kind.Value.key group.1 := by
  rw [keys, List.getElem?_map, Array.getElem?_toList]

namespace Progress

/-- The positions that are kept are those of the groups. -/
def Indexed (p : Progress k) : Prop :=
  ∀ (key : ℤ) (i : ℕ), p.positions[key]? = some i ↔ p.grouping.keys[i]? = some key

lemma indexed_empty : ({} : Progress k).Indexed := by
  intro key i
  simp [keys]

/-- No key is that of two groups. -/
lemma Indexed.nodup_keys {p : Progress k} (h : p.Indexed) : p.grouping.keys.Nodup := by
  rw [List.nodup_iff_getElem?_ne_getElem?]
  intro i j hij hj heq
  have hi : p.positions[p.grouping.keys[j]]? = some i := by
    rw [h, heq, List.getElem?_eq_getElem hj]
  have hj : p.positions[p.grouping.keys[j]]? = some j := by
    rw [h, List.getElem?_eq_getElem hj]
  rw [hi, Option.some.injEq] at hj
  omega

lemma Indexed.mem_keys_iff {p : Progress k} (h : p.Indexed) (key : ℤ) :
    key ∈ p.grouping.keys ↔ ∃ i, p.positions[key]? = some i := by
  simp only [List.mem_iff_getElem?, h key]

/-- A key that has not occurred has no position. -/
lemma Indexed.positions_eq_none {p : Progress k} (h : p.Indexed) {key : ℤ}
    (hkey : key ∉ p.grouping.keys) : p.positions[key]? = none := by
  by_contra hne
  obtain ⟨i, hi⟩ := Option.ne_none_iff_exists'.1 hne
  exact hkey ((h.mem_keys_iff _).2 ⟨i, hi⟩)

/-- A null row adds no key. -/
lemma keys_add_none (p : Progress k) (row : ℕ) :
    (p.add (none, row)).grouping.keys = p.grouping.keys := rfl

/-- A row with a key that has occurred adds none. -/
lemma keys_add_of_mem {p : Progress k} (h : p.Indexed) {v : k.Value}
    (hv : Kind.Value.key v ∈ p.grouping.keys) (row : ℕ) :
    (p.add (some v, row)).grouping.keys = p.grouping.keys ∧
      (p.add (some v, row)).positions = p.positions := by
  obtain ⟨position, hposition⟩ := (h.mem_keys_iff _).1 hv
  obtain ⟨⟨groups, nullRows⟩, positions⟩ := p
  simp only [add, hposition, and_true]
  refine List.ext_getElem? fun i => ?_
  simp only [getElem?_keys, Array.getElem?_modify]
  split_ifs with hi
  · rw [Option.map_map]
    rfl
  · rfl

/-- A row with a new key adds a group with this key. -/
lemma keys_add_of_notMem {p : Progress k} (h : p.Indexed) {v : k.Value}
    (hv : Kind.Value.key v ∉ p.grouping.keys) (row : ℕ) :
    (p.add (some v, row)).grouping.keys = p.grouping.keys ++ [Kind.Value.key v] ∧
      (p.add (some v, row)).positions
        = p.positions.insert (Kind.Value.key v) p.grouping.keys.length := by
  have hposition := h.positions_eq_none hv
  rw [length_keys]
  obtain ⟨⟨groups, nullRows⟩, positions⟩ := p
  simp [add, hposition, keys]

/-- One more row keeps the positions right, and its key is the only one that is added. -/
lemma Indexed.add {p : Progress k} (h : p.Indexed) (cell : Cell k) (row : ℕ) :
    (p.add (cell, row)).Indexed ∧ ∀ key, key ∈ (p.add (cell, row)).grouping.keys ↔
      key ∈ p.grouping.keys ∨ ∃ v, cell = some v ∧ Kind.Value.key v = key := by
  rcases cell with _ | v
  · refine ⟨h, fun key => ?_⟩
    rw [keys_add_none]
    simp
  by_cases hv : Kind.Value.key v ∈ p.grouping.keys
  · obtain ⟨hkeys, hpositions⟩ := keys_add_of_mem h hv row
    refine ⟨fun key i => by rw [hkeys, hpositions, h], fun key => ?_⟩
    rw [hkeys]
    refine ⟨Or.inl, ?_⟩
    rintro (hkey | ⟨_, ⟨⟩, rfl⟩)
    · exact hkey
    · exact hv
  · obtain ⟨hkeys, hpositions⟩ := keys_add_of_notMem h hv row
    refine ⟨fun key i => ?_, fun key => ?_⟩
    · rw [hkeys, hpositions, Std.HashMap.getElem?_insert]
      by_cases hkey : Kind.Value.key v = key
      · -- the new key is at the end, and nowhere before it
        rw [if_pos (beq_iff_eq.2 hkey), List.getElem?_append, ← hkey]
        split_ifs with hi
        · have hne : p.grouping.keys[i]? ≠ some (Kind.Value.key v) := fun heq =>
            hv (List.mem_of_getElem? heq)
          simp only [Option.some.injEq, hne, iff_false]
          omega
        · rw [List.getElem?_singleton]
          split_ifs with hlast
          · simp only [Option.some.injEq, iff_true]
            omega
          · simp only [Option.some.injEq, iff_false]
            omega
      · rw [if_neg (by simpa using hkey), h, List.getElem?_append]
        split_ifs with hi
        · rfl
        · rw [List.getElem?_eq_none (by omega), List.getElem?_singleton]
          split_ifs <;> simp [hkey]
    · rw [hkeys]
      simp [eq_comm]

/-- A list of rows keeps the positions right and adds their keys, by induction on the list. -/
lemma Indexed.foldl_add {p : Progress k} (h : p.Indexed) (rows : List (Cell k × ℕ)) :
    (rows.foldl Progress.add p).Indexed ∧ ∀ key, key ∈ (rows.foldl Progress.add p).grouping.keys ↔
      key ∈ p.grouping.keys ∨ ∃ v row, (some v, row) ∈ rows ∧ Kind.Value.key v = key := by
  induction rows generalizing p with
  | nil => exact ⟨h, by simp⟩
  | cons x rows ih =>
    obtain ⟨cell, row⟩ := x
    obtain ⟨hindexed, hkeys⟩ := h.add cell row
    obtain ⟨hindexed', hkeys'⟩ := ih hindexed
    refine ⟨hindexed', fun key => ?_⟩
    rw [List.foldl_cons, hkeys', hkeys]
    simp only [List.mem_cons, Prod.mk.injEq]
    constructor
    · rintro ((hkey | ⟨v, rfl, hkey⟩) | ⟨v, row', hmem, hkey⟩)
      · exact Or.inl hkey
      · exact Or.inr ⟨v, row, Or.inl ⟨rfl, rfl⟩, hkey⟩
      · exact Or.inr ⟨v, row', Or.inr hmem, hkey⟩
    · rintro (hkey | ⟨v, row', ⟨rfl, rfl⟩ | hmem, hkey⟩)
      · exact Or.inl (Or.inl hkey)
      · exact Or.inl (Or.inr ⟨v, rfl, hkey⟩)
      · exact Or.inr ⟨v, row', hmem, hkey⟩

end Progress

/-- Every key that occurs among the rows is the key of exactly one group. -/
theorem keys_ofRows (rows : List (Cell k)) :
    (ofRows rows).keys.Nodup ∧
      ∀ key, key ∈ (ofRows rows).keys ↔ ∃ v, some v ∈ rows ∧ Kind.Value.key v = key := by
  obtain ⟨hindexed, hkeys⟩ := Progress.indexed_empty.foldl_add rows.zipIdx
  refine ⟨hindexed.nodup_keys, fun key => (hkeys key).trans ?_⟩
  have hnone : key ∉ ({} : Progress k).grouping.keys := by simp [keys]
  rw [or_iff_right hnone]
  constructor
  · rintro ⟨v, row, hmem, hkey⟩
    exact ⟨v, (List.mem_zipIdx' hmem).2 ▸ List.getElem_mem _, hkey⟩
  · rintro ⟨v, hmem, hkey⟩
    obtain ⟨row, hrow, heq⟩ := List.mem_iff_getElem.1 hmem
    exact ⟨v, row, List.mem_zipIdx_iff_getElem?.2 (by simp [hrow, heq]), hkey⟩

/-- There are as many groups as there are different keys. -/
theorem size_groups_ofRows (rows : List (Cell k)) :
    (ofRows rows).groups.size = ((rows.filterMap id).map Kind.Value.key).toFinset.card := by
  obtain ⟨hnodup, hmem⟩ := keys_ofRows rows
  have hset : ((rows.filterMap id).map Kind.Value.key).toFinset = (ofRows rows).keys.toFinset := by
    ext key
    simp [hmem]
  rw [hset, List.toFinset_card_of_nodup hnodup, length_keys]

end Columnar.Grouping
