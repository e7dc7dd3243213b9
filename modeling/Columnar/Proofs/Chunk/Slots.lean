import Columnar.Proofs.Edit
import Columnar.Proofs.Mask.Count
import Columnar.Chunk
/-!
# The slots of a chunk

A slot is a stored value with its validity flag; unlike a row it still shows what is stored beneath
a null. The slots of a chunk are the view in which the operations on chunks are described: each
operation on a well-formed chunk gives a well-formed chunk again, and changes the list of slots as
the corresponding list operation does. Well-formed chunks with equal slots are equal up to the
size of their allocation.
-/

namespace Columnar

variable {k : Kind}

/-- A stored value and whether it is a row with a value. -/
abbrev Slot (k : Kind) : Type := k.Value × Bool

namespace Slot

/-- The row that a slot stands for. -/
def cell : Slot k → Cell k := fun (v, valid) => if valid then some v else none

/-- Whether the row of the slot is a null. -/
def isNull (s : Slot k) : Bool := !s.2

/-- The slot of a null that was never given a value. -/
def null : Slot k := (k.zero, false)

lemma cell_of_valid {x : Slot k} (h : x.2 = true) : x.cell = some x.1 := if_pos h

lemma cell_of_null {x : Slot k} (h : x.2 = false) : x.cell = none :=
  if_neg fun hvalid => Bool.false_ne_true (h.symm.trans hvalid)

lemma cell_eq_none_iff {x : Slot k} : x.cell = none ↔ x.2 = false := by
  constructor
  · intro hnone
    by_contra hvalid
    rw [cell_of_valid (Bool.eq_true_of_not_eq_false hvalid)] at hnone
    cases hnone
  · exact cell_of_null

end Slot

/-- The slot in which a row is stored. -/
def Cell.slot (c : Cell k) : Slot k := (c.stored, c.isSome)

@[simp] lemma Cell.cell_slot (c : Cell k) : c.slot.cell = c := by
  cases c <;> rfl

@[simp] lemma Cell.isNull_slot (c : Cell k) : c.slot.isNull = c.isNone := by
  cases c <;> rfl

@[simp] lemma Cell.slot_none : Cell.slot (none : Cell k) = Slot.null := rfl

namespace Chunk

variable {cap : ℕ} {c d : Chunk k}

/-- A chunk that may grow up to `cap` rows, has no more of them, and has one flag for each. -/
structure WellFormed (cap : ℕ) (c : Chunk k) : Prop where
  ceiling_eq : c.values.ceiling = cap
  len_le : c.len ≤ cap
  len_validity : c.validity.len = c.len
  validity : c.validity.WellFormed

lemma len_eq_size (c : Chunk k) : c.len = c.values.values.size := rfl

@[simp] lemma length_slots (c : Chunk k) : c.slots.length = c.len := by
  simp [slots, len_eq_size]

lemma lt_size {i : ℕ} (h : i < c.slots.length) : i < c.values.values.size := by
  rwa [length_slots, len_eq_size] at h

lemma getElem_slots (c : Chunk k) {i : ℕ} (h : i < c.slots.length)
    (hi : i < c.values.values.size) :
    c.slots[i] = (c.values.values[i], c.validity.isValid i) := by
  simp [slots]

@[simp] lemma map_fst_slots (c : Chunk k) : c.slots.map Prod.fst = c.values.values.toList := by
  rw [slots, List.map_fst_zip (by simp [len_eq_size])]

lemma map_snd_slots (c : Chunk k) :
    c.slots.map Prod.snd = (List.range c.len).map c.validity.isValid := by
  rw [slots, List.map_snd_zip (by simp [len_eq_size])]

/-- A list is the list of slots of a chunk if it has the values and the flags of the chunk. -/
lemma slots_eq {l : List (Slot k)} (hvalues : c.values.values.toList = l.map Prod.fst)
    (hflags : ∀ i (h : i < l.length), c.validity.isValid i = l[i].2) : c.slots = l := by
  have hlen : c.len = l.length := by
    rw [len_eq_size, ← Array.length_toList, hvalues, List.length_map]
  apply List.ext_getElem
  · rw [length_slots, hlen]
  · intro i h1 h2
    have hi := lt_size h1
    have hv : c.values.values.toList[i]? = (l.map Prod.fst)[i]? := by rw [hvalues]
    rw [List.getElem?_map, List.getElem?_eq_getElem h2, Array.getElem?_toList,
      Array.getElem?_eq_getElem hi, Option.map_some, Option.some.injEq] at hv
    rw [getElem_slots c h1 hi]
    exact Prod.ext hv (hflags i h2)

/-- Well-formed chunks with equal slots have equal values and masks. -/
theorem contents_eq_of_slots_eq {cap' : ℕ} (hc : c.WellFormed cap) (hd : d.WellFormed cap')
    (h : c.slots = d.slots) : c.values.values = d.values.values ∧ c.validity = d.validity := by
  have hlen : c.len = d.len := by rw [← length_slots, ← length_slots, h]
  have hslot : ∀ i (hi : i < c.values.values.size) (hi' : i < d.values.values.size),
      c.values.values[i] = d.values.values[i] ∧ c.validity.isValid i = d.validity.isValid i := by
    intro i hi hi'
    have hc := getElem_slots c (by simpa [len_eq_size] using hi) hi
    have hd := getElem_slots d (by simpa [len_eq_size] using hi') hi'
    simp only [h] at hc
    rw [hd, Prod.mk.injEq] at hc
    exact ⟨hc.1.symm, hc.2.symm⟩
  constructor
  · apply Array.ext hlen
    intro i hi hi'
    exact (hslot i hi hi').1
  · apply hc.validity.ext hd.validity (by rw [hc.len_validity, hd.len_validity, hlen])
    intro i hi
    rw [hc.len_validity] at hi
    exact (hslot i hi (Nat.lt_of_lt_of_eq hi hlen)).2

/-! ### Reading -/

lemma row_eq_cell {i : ℕ} (h : i < c.slots.length) : c.row i = Slot.cell c.slots[i] := by
  rw [getElem_slots c h (lt_size h)]
  simp [row, Slot.cell, Array.getD, lt_size h]

lemma isValid_eq_slot {i : ℕ} (h : i < c.slots.length) : c.validity.isValid i = c.slots[i].2 := by
  rw [getElem_slots c h (lt_size h)]

lemma rows_eq_map_slots (c : Chunk k) : c.rows = c.slots.map Slot.cell := rfl

@[simp] lemma length_rows (c : Chunk k) : c.rows.length = c.len := by
  rw [rows_eq_map_slots, List.length_map, length_slots]

/-- The nulls from an offset on. -/
lemma nullCountIn_eq_countP (c : Chunk k) (start : ℕ) :
    c.validity.nullCountIn start c.len = (c.slots.drop start).countP Slot.isNull := by
  have hflags : (c.slots.drop start).map Prod.snd
      = (List.range' start (c.len - start)).map c.validity.isValid := by
    rw [List.map_drop, map_snd_slots, ← List.map_drop, List.range_eq_range', List.drop_range']
    simp
  have hnull : ∀ l : List (Slot k), l.countP Slot.isNull = (l.map Prod.snd).countP (!·) := by
    intro l
    rw [List.countP_map]
    rfl
  rw [Mask.nullCountIn_eq_countP, hnull, hflags, List.countP_map]
  rfl

lemma nullCount_eq_countP (h : c.WellFormed cap) : c.nullCount = c.slots.countP Slot.isNull := by
  rw [nullCount, Mask.nullCount, h.len_validity, nullCountIn_eq_countP, List.drop_zero]

end Chunk

end Columnar
