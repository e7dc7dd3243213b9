import Columnar.Proofs.Column.Binary
import Columnar.Proofs.Column.Rows
/-!
# Layouts that agree

The chunks of a column are a matter of its length and of its capacity, and not of how the column
came about. Two columns of one length can be paired exactly if their capacities are equal or if one
chunk of either holds all rows. If they cannot, they differ in the first chunk already. In
particular, columns of one kind, length and options can always be combined.
-/

namespace Columnar

variable {k : Kind} {p q n : ℕ}

/-! ### Sizes of chunks -/

/-- The first chunk has all rows, or as many as fit. -/
lemma getElem?_zero_chunkSizes (hp : 0 < p) (n : ℕ) :
    (chunkSizes p n)[0]?.getD 0 = min p n := by
  rcases Nat.eq_zero_or_pos n with rfl | hn
  · simp
  · obtain ⟨full, r, hr, hle, rfl⟩ := exists_eq_mul_add hp hn
    rw [chunkSizes_add full hr hle]
    rcases full with _ | full
    · simpa using hle
    · have hfull : p ≤ (full + 1) * p + r := by
        rw [Nat.succ_mul]
        omega
      simpa [List.replicate_succ] using hfull

/-- Rows that fit into one chunk of either capacity are cut alike. -/
lemma chunkSizes_eq_of_le (hp : n ≤ p) (hq : n ≤ q) : chunkSizes p n = chunkSizes q n := by
  rcases Nat.eq_zero_or_pos n with rfl | hn
  · simp
  · simpa using (chunkSizes_add 0 hn hp).trans (chunkSizes_add 0 hn hq).symm

lemma chunkSizes_congr (h : p = q ∨ n ≤ min p q) : chunkSizes p n = chunkSizes q n := by
  rcases h with rfl | h
  · rfl
  · exact chunkSizes_eq_of_le (by omega) (by omega)

/-- Rows are cut alike exactly if the capacities are equal or one chunk of either holds all
rows. -/
lemma chunkSizes_eq_iff (hp : 0 < p) (hq : 0 < q) :
    chunkSizes p n = chunkSizes q n ↔ p = q ∨ n ≤ min p q := by
  refine ⟨fun h => ?_, chunkSizes_congr⟩
  have hfirst : min p n = min q n := by
    rw [← getElem?_zero_chunkSizes hp, ← getElem?_zero_chunkSizes hq, h]
  omega

namespace Container

variable {o o' : Options} {xs ys : List (Cell k)} {left right : Container k}

namespace Holds

lemma chunkCapacity_eq (h : left.Holds o xs) : left.chunkCapacity = o.chunkCapacity k := by
  rw [chunkCapacity, h.options_eq]

/-- The sizes of the chunks as a function of the capacity and the length. -/
lemma sizes_eq_chunkSizes (h : left.Holds o xs) :
    left.sizes = chunkSizes left.chunkCapacity left.len := by
  rw [h.sizes_eq, h.chunkCapacity_eq, h.len_eq]

/-- Containers of one capacity, or of one chunk, can be paired. -/
lemma checkLayout_of_agree (hl : left.Holds o xs) (hr : right.Holds o' ys)
    (hlen : left.len = right.len) (h : left.chunkCapacity = right.chunkCapacity ∨
      left.len ≤ min left.chunkCapacity right.chunkCapacity) : checkLayout left right = .ok () := by
  have hsizes : left.sizes = right.sizes := by
    rw [hl.sizes_eq_chunkSizes, hr.sizes_eq_chunkSizes, ← hlen]
    exact chunkSizes_congr h
  exact hl.checkLayout_of_sizes_eq hr hsizes

/-- All others differ in the first chunk. -/
lemma checkLayout_of_not_agree (hl : left.Holds o xs) (hr : right.Holds o' ys)
    (hlen : left.len = right.len) (h : ¬ (left.chunkCapacity = right.chunkCapacity ∨
      left.len ≤ min left.chunkCapacity right.chunkCapacity)) :
    checkLayout left right = .error (.layoutMismatch 0 (min left.chunkCapacity left.len)
      (min right.chunkCapacity left.len)) := by
  have hfirst : ∀ {c : Container k} {o : Options} {rows : List (Cell k)}, c.Holds o rows →
      c.sizes[0]?.getD 0 = min c.chunkCapacity c.len := by
    intro c o rows hc
    rw [hc.sizes_eq_chunkSizes]
    exact getElem?_zero_chunkSizes (c.options.chunkCapacity_pos k) c.len
  have hzero : left.sizes[0]? ≠ right.sizes[0]? := by
    intro heq
    have hmin := congrArg (Option.getD · 0) heq
    simp only [hfirst hl, hfirst hr] at hmin
    omega
  have hl' := hfirst hl
  have hr' := hfirst hr
  obtain ⟨s, hs, -⟩ := hl
  obtain ⟨t, ht, -⟩ := hr
  obtain ⟨j, hj, hlt, he⟩ := hs.checkLayout_of_sizes_ne ht hlen fun heq => hzero (by rw [heq])
  -- no chunk before the reported one differs
  obtain rfl : j = 0 := by
    by_contra hpos
    exact hzero (hlt 0 (by omega))
  rw [he, hl', hr', hlen]

end Holds

end Container

namespace Column

variable {left right : Column k} {name name' : String} {o o' : Options} {xs ys : List (Cell k)}
  {e : ColumnError}

/-- The two columns can be paired: a legal operator is refused for what the rows are, if at all, and
a legal comparison is never refused. -/
structure Combines (left right : Column k) : Prop where
  checkLayout_eq : Container.checkLayout left.container right.container = .ok ()
  binary : ∀ op, k.support.allows (.binary op) → ∀ e, (left.binary op right).result = .error e →
    e = .divideByZero k ∨ e = .overflow k op
  binaryInPlace : ∀ op, k.support.allows (.binary op) → ∀ e,
    (binaryInPlace op right left).result = .error e → e = .divideByZero k ∨ e = .overflow k op
  compare : ∀ op, k.support.allows (.comparison op) → ∃ d, (left.compare op right).result = .ok d

/-- The two columns cannot be paired: every legal operator and comparison is refused with one
error. -/
structure Clashes (e : ColumnError) (left right : Column k) : Prop where
  checkLayout_eq : Container.checkLayout left.container right.container = .error e
  binary : ∀ op, k.support.allows (.binary op) → (left.binary op right).result = .error e
  binaryInPlace : ∀ op, k.support.allows (.binary op) →
    (binaryInPlace op right left).result = .error e
  compare : ∀ op, k.support.allows (.comparison op) → (left.compare op right).result = .error e

lemma Holds.combines (hl : left.Holds name o xs) (hr : right.Holds name' o' ys)
    (h : Container.checkLayout left.container right.container = .ok ()) : left.Combines right := by
  constructor
  case checkLayout_eq => exact h
  -- Past the layout, only the operator on the pairs of rows may fail.
  case binary =>
    intro op hallows e he
    have hrefines := refines_binary hl hr.2 op
    rw [check_eq_ok hallows, h] at hrefines
    exact BinaryOp.onPairs_eq_error hallows (hrefines.eq_error_of_result he)
  case binaryInPlace =>
    intro op hallows e he
    have hrefines := refines_binaryInPlace hl hr.2 op
    rw [check_eq_ok hallows, h] at hrefines
    exact BinaryOp.onPairs_eq_error hallows (hrefines.eq_error_of_result he)
  case compare =>
    intro op hallows
    have hrefines := refines_compare hl hr.2 op
    rw [check_eq_ok hallows, h] at hrefines
    obtain ⟨d, hd, -⟩ := hrefines
    exact ⟨d, hd⟩

lemma Holds.clashes (hl : left.Holds name o xs) (hr : right.Holds name' o' ys)
    (h : Container.checkLayout left.container right.container = .error e) :
    Clashes e left right := by
  constructor
  case checkLayout_eq => exact h
  case binary =>
    intro op hallows
    have hrefines := refines_binary hl hr.2 op
    rwa [check_eq_ok hallows, h] at hrefines
  case binaryInPlace =>
    intro op hallows
    have hrefines := refines_binaryInPlace hl hr.2 op
    rw [check_eq_ok hallows, h] at hrefines
    exact Edit.Refuses.result hrefines
  case compare =>
    intro op hallows
    have hrefines := refines_compare hl hr.2 op
    rwa [check_eq_ok hallows, h] at hrefines

end Column

/-- **Layouts agree by length and capacity.** Two reachable columns of one kind and one length can
be combined if their capacities are equal or neither is less than the length, and otherwise clash in
the first chunk, of which each has as many rows as fit. Columns of the same options can always be
combined. -/
theorem columns_combine_or_clash {left right : Column k} (hl : left.Reachable)
    (hr : right.Reachable) (hlen : left.len = right.len)
    (hp : left.container.chunkCapacity = p) (hq : right.container.chunkCapacity = q)
    (hn : left.len = n) :
    (Container.checkLayout left.container right.container = .ok () ↔ p = q ∨ n ≤ min p q) ∧
    (p = q ∨ n ≤ min p q → left.Combines right) ∧
    (¬ (p = q ∨ n ≤ min p q) →
      Column.Clashes (.layoutMismatch 0 (min p n) (min q n)) left right) ∧
    (left.options = right.options → left.Combines right) := by
  subst hp hq hn
  have hagree := hl.holds.2.checkLayout_of_agree hr.holds.2 hlen
  have hclash := hl.holds.2.checkLayout_of_not_agree hr.holds.2 hlen
  refine ⟨⟨fun h => ?_, hagree⟩, fun h => hl.holds.combines hr.holds (hagree h),
    fun h => hl.holds.clashes hr.holds (hclash h), fun hoptions => ?_⟩
  · by_contra hnot
    rw [hclash hnot] at h
    cases h
  · refine hl.holds.combines hr.holds (hagree (Or.inl ?_))
    exact congrArg (Options.chunkCapacity · k) hoptions

/-- Three rows in chunks of two and in one chunk. -/
theorem clash_of_three_rows : ∃ left right : Column .int32,
    (Column.ofRows "a" [some 1, none, some 3] (.withChunkRows .int32 2)).result = .ok left ∧
      (Column.ofRows "b" [some 1, none, some 3] (.withChunkRows .int32 4)).result = .ok right ∧
      left.len = right.len ∧ left.container.chunkCapacity = 2 ∧
      right.container.chunkCapacity = 4 ∧ left.len = 3 ∧
      Column.Clashes (.layoutMismatch 0 2 3) left right :=
  ⟨_, _, rfl, rfl, rfl, rfl, rfl, rfl, (columns_combine_or_clash (k := .int32)
    (.ofRows "a" [some 1, none, some 3] (.withChunkRows .int32 2) rfl)
    (.ofRows "b" [some 1, none, some 3] (.withChunkRows .int32 4) rfl)
    rfl rfl rfl rfl).2.2.1 (by decide)⟩

end Columnar
