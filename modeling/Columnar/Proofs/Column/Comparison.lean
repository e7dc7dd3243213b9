import Columnar.Proofs.Column.Broadcast
/-!
# Comparisons, row by row

The result of a comparison is cut into chunks for booleans, which are longer than those of its
operands, so that the rows are taken out of chunks of one size and put into chunks of another one.
Row by row the result is right all the same: it is null where an operand is null, and has the
verdict on the two values elsewhere. A comparison with a scalar is the comparison with a column that
has the scalar in every row. Where no value is unordered, every comparison has another one that is
its negation in every row that is not null.
-/

namespace Columnar

variable {k : Kind}

/-! ### Verdicts on values -/

/-- Only floating-point numbers can be unordered. -/
lemma Kind.Value.isUnordered_eq_false (h32 : k ≠ .float32) (h64 : k ≠ .float64) (v : k.Value) :
    isUnordered v = false := by
  cases k
  case float32 => exact absurd rfl h32
  case float64 => exact absurd rfl h64
  all_goals rfl

namespace Comparison

/-- The comparison that holds of two values with an order between them exactly if this one does
not. -/
def negation : Comparison → Comparison
  | .equal => .notEqual
  | .notEqual => .equal
  | .greaterOrEqual => .less
  | .lessOrEqual => .greater
  | .greater => .lessOrEqual
  | .less => .greaterOrEqual

lemma holds_negation (op : Comparison) (r : Ordering) :
    op.negation.holds (some r) = !op.holds (some r) := by
  cases op <;> cases r <;> rfl

lemma allows_negation (op : Comparison) (s : Support) :
    s.allows (.comparison op.negation) = s.allows (.comparison op) := by
  cases op <;> rfl

lemma evaluate_negation (h32 : k ≠ .float32) (h64 : k ≠ .float64) (op : Comparison)
    (a b : k.Value) : op.negation.evaluate a b = !op.evaluate a b := by
  rw [evaluate, evaluate, Kind.Value.compare?, Kind.Value.isUnordered_eq_false h32 h64 a,
    Kind.Value.isUnordered_eq_false h32 h64 b]
  exact op.holds_negation _

variable {a b : k.Value}

/-- Neither of two values is unordered. -/
def Ordered (a b : k.Value) : Prop :=
  Kind.Value.isUnordered a = false ∧ Kind.Value.isUnordered b = false

/-- A comparison that does not hold of unordered values, as a relation of the keys. -/
lemma evaluate_iff {op : Comparison} {r : ℤ → ℤ → Prop} (hnone : op.holds none = false)
    (hsome : ∀ x y, op.holds (some (compare x y)) ↔ r x y) :
    op.evaluate a b ↔ Ordered a b ∧ r (Kind.Value.key a) (Kind.Value.key b) := by
  rw [evaluate, Kind.Value.compare?, Ordered, ← Bool.or_eq_false_iff]
  split_ifs with hunordered
  · simp [hnone, hunordered]
  · rw [hsome, and_iff_right (Bool.eq_false_of_not_eq_true hunordered)]

lemma evaluate_equal_iff :
    equal.evaluate a b ↔ Ordered a b ∧ Kind.Value.key a = Kind.Value.key b := by
  refine evaluate_iff rfl fun x y => ?_
  rw [← compare_eq_iff_eq (a := x) (b := y)]
  cases compare x y <;> simp [holds]

lemma evaluate_less_iff :
    less.evaluate a b ↔ Ordered a b ∧ Kind.Value.key a < Kind.Value.key b := by
  refine evaluate_iff rfl fun x y => ?_
  rw [← compare_lt_iff_lt]
  cases compare x y <;> simp [holds]

lemma evaluate_greater_iff :
    greater.evaluate a b ↔ Ordered a b ∧ Kind.Value.key b < Kind.Value.key a := by
  refine evaluate_iff (r := fun x y => y < x) rfl fun x y => ?_
  rw [← compare_gt_iff_gt]
  cases compare x y <;> simp [holds]

lemma evaluate_lessOrEqual_iff :
    lessOrEqual.evaluate a b ↔ Ordered a b ∧ Kind.Value.key a ≤ Kind.Value.key b := by
  refine evaluate_iff rfl fun x y => ?_
  rw [← compare_le_iff_le]
  cases compare x y <;> simp [holds]

end Comparison

namespace Container

lemma compareCells_eq_none_iff {op : Comparison} {x y : Cell k} :
    compareCells op x y = none ↔ x = none ∨ y = none := by
  cases x <;> cases y <;> simp [compareCells]

lemma compareCells_negation (h32 : k ≠ .float32) (h64 : k ≠ .float64) (op : Comparison) :
    compareCells (k := k) op.negation = fun x y => (compareCells op x y).map not := by
  funext x y
  rcases x with _ | a <;> rcases y with _ | b
  case some.some => exact congrArg some (op.evaluate_negation h32 h64 a b)
  all_goals rfl

end Container

namespace Column

variable {name name' : String} {o o' : Options} {xs ys rows : List (Cell k)} {op : Comparison}
  {left right c filled : Column k} {scalar : k.Value}

/-! ### Two columns -/

/-- The column has the verdicts of a comparison on the rows of two columns. -/
structure Verdicts (op : Comparison) (left right : Column k) (d : Column .bool) : Prop where
  name_eq : d.name = left.name
  options_eq : d.options = left.options
  len_eq : d.len = left.len
  /-- The chunks are as long as the options allow for booleans. -/
  sizes_eq : d.container.sizes = chunkSizes (left.options.chunkCapacity .bool) left.len
  /-- A row is null if an operand is, and otherwise has the verdict on the two values. -/
  row : ∀ i < left.len, ∃ x y z, left.get i = .ok x ∧ right.get i = .ok y ∧ d.get i = .ok z ∧
    (z = none ↔ x = none ∨ y = none) ∧ ∀ a b, x = some a → y = some b → z = some (op.evaluate a b)

/-- How the comparison of two columns ends, in the order of precedence. -/
structure ComparisonOutcome (op : Comparison) (left right : Column k)
    (result : Except ColumnError (Column .bool)) : Prop where
  unsupported : result = .error (.unsupportedOperation k (.comparison op)) ↔
    ¬ k.support.allows (.comparison op)
  lengthMismatch : k.support.allows (.comparison op) →
    (result = .error (.lengthMismatch left.len right.len) ↔ left.len ≠ right.len)
  layoutMismatch : k.support.allows (.comparison op) → left.len = right.len →
    ((∃ j m n, result = .error (.layoutMismatch j m n)) ↔
      left.container.sizes ≠ right.container.sizes)
  succeeds : k.support.allows (.comparison op) → left.len = right.len →
    left.container.sizes = right.container.sizes → ∃ d, result = .ok d ∧ Verdicts op left right d

/-- A column of the verdicts on the rows of two columns has them row by row. -/
lemma Holds.verdicts {d : Column .bool} (hl : left.Holds name o xs) (hr : right.Holds name' o' ys)
    (hlen : xs.length = ys.length)
    (hd : d.Holds name o (List.zipWith (Container.compareCells op) xs ys)) :
    Verdicts op left right d := by
  have hlength : (List.zipWith (Container.compareCells op) xs ys).length = xs.length := by
    rw [List.length_zipWith, ← hlen, min_self]
  have hoptions : left.options = o := hl.2.options_eq
  refine ⟨hd.1.trans hl.1.symm, hd.2.options_eq.trans hoptions.symm, ?_, ?_, fun i hi => ?_⟩
  · rw [hd.len_eq, hl.len_eq, hlength]
  · rw [hd.2.sizes_eq, hlength, hoptions, hl.len_eq]
  · rw [hl.len_eq] at hi
    have hi' : i < ys.length := hlen ▸ hi
    refine ⟨xs[i], ys[i], Container.compareCells op xs[i] ys[i], ?_, ?_, ?_,
      Container.compareCells_eq_none_iff, ?_⟩
    · exact hl.get_eq_ok_iff.2 (List.getElem?_eq_getElem hi)
    · exact hr.get_eq_ok_iff.2 (List.getElem?_eq_getElem hi')
    · refine hd.get_eq_ok_iff.2 ?_
      rw [List.getElem?_zipWith, List.getElem?_eq_getElem hi, List.getElem?_eq_getElem hi']
    · intro a b ha hb
      rw [ha, hb, Container.compareCells]

/-- One of four things happens, and which one is seen from the kind, the lengths and the layouts. -/
lemma Holds.compare_cases (hl : left.Holds name o xs) (hr : right.Holds name' o' ys)
    (op : Comparison) :
    ¬ k.support.allows (.comparison op) ∧
        (left.compare op right).result = .error (.unsupportedOperation k (.comparison op)) ∨
      k.support.allows (.comparison op) ∧ left.len ≠ right.len ∧
        (left.compare op right).result = .error (.lengthMismatch left.len right.len) ∨
      k.support.allows (.comparison op) ∧ left.len = right.len ∧
        left.container.sizes ≠ right.container.sizes ∧
        (∃ j m n, (left.compare op right).result = .error (.layoutMismatch j m n)) ∨
      k.support.allows (.comparison op) ∧ left.len = right.len ∧
        left.container.sizes = right.container.sizes ∧
        ∃ d, (left.compare op right).result = .ok d ∧ Verdicts op left right d := by
  have h := refines_compare hl hr.2 op
  obtain ⟨s, hs, -⟩ := hl.2
  obtain ⟨t, ht, -⟩ := hr.2
  by_cases hallows : k.support.allows (.comparison op)
  · rw [check_eq_ok hallows] at h
    by_cases hlen : left.len = right.len
    · by_cases hsizes : left.container.sizes = right.container.sizes
      · rw [hs.checkLayout_eq_ok ht hsizes] at h
        obtain ⟨d, hd, hholds⟩ := h
        have hrows : xs.length = ys.length := by rw [← hl.len_eq, ← hr.len_eq, hlen]
        exact .inr (.inr (.inr ⟨hallows, hlen, hsizes, d, hd, hl.verdicts hr hrows hholds⟩))
      · obtain ⟨j, -, -, he⟩ := hs.checkLayout_of_sizes_ne ht hlen hsizes
        rw [he] at h
        exact .inr (.inr (.inl ⟨hallows, hlen, hsizes, _, _, _, h⟩))
    · rw [Container.Stores.checkLayout_of_len_ne hlen] at h
      exact .inr (.inl ⟨hallows, hlen, h⟩)
  · rw [check_eq_error hallows] at h
    exact .inl ⟨hallows, h⟩

lemma Holds.comparisonOutcome (hl : left.Holds name o xs) (hr : right.Holds name' o' ys)
    (op : Comparison) : ComparisonOutcome op left right (left.compare op right).result := by
  rcases hl.compare_cases hr op with ⟨hallows, h⟩ | ⟨hallows, hlen, h⟩ |
    ⟨hallows, hlen, hsizes, j, m, n, h⟩ | ⟨hallows, hlen, hsizes, d, h, hverdicts⟩
  · constructor
    case unsupported => exact iff_of_true h hallows
    all_goals exact fun hlegal => absurd hlegal hallows
  · constructor
    case unsupported => simp [h, hallows]
    case lengthMismatch => exact fun _ => iff_of_true h hlen
    all_goals exact fun _ heq => absurd heq hlen
  · constructor
    case unsupported => simp [h, hallows]
    case lengthMismatch => simp [h, hlen]
    case layoutMismatch => exact fun _ _ => iff_of_true ⟨j, m, n, h⟩ hsizes
    case succeeds => exact fun _ _ heq => absurd heq hsizes
  · constructor
    case unsupported => simp [h, hallows]
    case lengthMismatch => simp [h, hlen]
    case layoutMismatch => simp [h, hsizes]
    case succeeds => exact fun _ _ _ => ⟨d, h, hverdicts⟩

/-! ### A column and a scalar -/

/-- How the comparison of a column with a scalar relates to the comparison with a column. -/
structure ComparesScalar (op : Comparison) (scalar : k.Value) (c : Column k) : Prop where
  /-- It does what the comparison with a column does that has the scalar in every row. -/
  filled : ∀ filled, Fills scalar c filled →
    (c.compareScalar op scalar).result = (c.compare op filled).result
  /-- A row with a value has the verdict on this value and the scalar. -/
  valid : ∀ d, (c.compareScalar op scalar).result = .ok d → ∀ i v, c.get i = .ok (some v) →
    d.get i = .ok (some (op.evaluate v scalar))

lemma Holds.result_compareScalar (h : c.Holds name o rows)
    (h' : filled.Holds name' o (List.replicate rows.length (some scalar))) (op : Comparison) :
    (c.compareScalar op scalar).result = (c.compare op filled).result := by
  have hlayout := h.2.checkLayout_eq_ok h'.2 List.length_replicate.symm
  -- with the scalar in every row, the verdicts on paired rows are those on single rows
  have hverdicts := Container.flatMap_zipWith_rows h.2 h'.2 hlayout (Container.compareCells op)
  rw [← List.map_const', List.zipWith_map_right, List.zipWith_self, ← h.2.rows_eq] at hverdicts
  have hcontainer : (Container.compareScalar op c.container scalar).result
      = (Container.compare op c.container filled.container).result := by
    show (Traced.ofExcept _ >>= fun _ => _).result
      = (Traced.ofExcept _ >>= fun _ => Traced.ofExcept _ >>= fun _ => _).result
    rw [hlayout, hverdicts]
    simp only [Traced.result_bind, Traced.result_ofExcept]
    rfl
  rw [compareScalar, compare, Traced.result_bind, Traced.result_bind, hcontainer]

lemma Holds.comparesScalar (h : c.Holds name o rows) (op : Comparison) (scalar : k.Value) :
    ComparesScalar op scalar c := by
  refine ⟨fun filled hfills => h.result_compareScalar (hfills.holds h) op, fun d hd i v hv => ?_⟩
  have hrow : rows[i]? = some (some v) := h.get_eq_ok_iff.1 hv
  obtain ⟨verdicts, hspec, hresult⟩ :=
    (refines_compareScalar h op scalar).exists_of_result_eq_ok hd
  obtain ⟨-, -, hverdicts⟩ := bind_eq_ok_iff.1 hspec
  cases hverdicts
  refine hresult.get_eq_ok_iff.2 ?_
  rw [List.getElem?_map, hrow]
  rfl

/-! ### Negated comparisons -/

/-- If the first comparison succeeds, then so does the second one, with the opposite verdict in
every row that is not null. -/
def Opposes (x y : Except ColumnError (Column .bool)) : Prop :=
  ∀ d, x = .ok d → ∃ d', y = .ok d' ∧ d'.rows = d.rows.map (Option.map not)

/-- Two comparisons, refused for the same reasons, of which one has the negated rows of the other
one. -/
lemma opposes_of_refines {x y : Traced (Column .bool)} {verdicts : List (Cell .bool)}
    (admitted : Except ColumnError Unit)
    (hx : x.Refines (Holds name o) (do
      check k (.comparison op)
      admitted
      return verdicts))
    (hy : y.Refines (Holds name o) (do
      check k (.comparison op.negation)
      admitted
      return verdicts.map (Option.map not))) : Opposes x.result y.result := by
  intro d hd
  obtain ⟨rows, hspec, hholds⟩ := hx.exists_of_result_eq_ok hd
  obtain ⟨⟨⟩, hcheck, hspec⟩ := bind_eq_ok_iff.1 hspec
  obtain ⟨⟨⟩, hadmitted, hspec⟩ := bind_eq_ok_iff.1 hspec
  cases hspec
  have hallows : k.support.allows (.comparison op.negation) := by
    rw [op.allows_negation]
    by_contra h
    rw [check_eq_error h] at hcheck
    cases hcheck
  rw [check_eq_ok hallows, hadmitted] at hy
  obtain ⟨d', hd', hholds'⟩ := hy
  exact ⟨d', hd', by rw [hholds'.rows_eq, hholds.rows_eq]⟩

lemma Holds.opposes_compare (hl : left.Holds name o xs) (hr : right.Holds name' o' ys)
    (h32 : k ≠ .float32) (h64 : k ≠ .float64) (op : Comparison) :
    Opposes (left.compare op right).result (left.compare op.negation right).result := by
  have hy := refines_compare hl hr.2 op.negation
  rw [Container.compareCells_negation h32 h64, ← List.map_zipWith] at hy
  exact opposes_of_refines _ (refines_compare hl hr.2 op) hy

lemma Holds.opposes_compareScalar (h : c.Holds name o rows) (h32 : k ≠ .float32)
    (h64 : k ≠ .float64) (op : Comparison) (scalar : k.Value) :
    Opposes (c.compareScalar op scalar).result (c.compareScalar op.negation scalar).result := by
  have hy := refines_compareScalar h op.negation scalar
  rw [Container.compareCells_negation h32 h64] at hy
  refine opposes_of_refines (.ok ()) (refines_compareScalar h op scalar) ?_
  rw [List.map_map]
  exact hy

/-! ### Reachable columns -/

/-- **Comparisons are aligned by rows.** The comparison of two reachable columns is refused if it is
not legal for their kind, or else if their lengths differ, or else if their chunks do; and otherwise
it gives the verdicts on their rows, with a null where an operand is null. The comparison with a
scalar is that with a column of the scalar, and has a verdict in every row with a value. If the kind
is not one of floating-point numbers, a comparison and its negation give opposite verdicts. -/
theorem compare_aligned (hl : left.Reachable) (hr : right.Reachable) (op : Comparison) :
    ComparisonOutcome op left right (left.compare op right).result ∧
    (∀ scalar : k.Value, (∀ name, ∃ filled,
        (ofRows name (List.replicate left.len (some scalar)) left.options).result = .ok filled ∧
          Fills scalar left filled) ∧ ComparesScalar op scalar left) ∧
    (k ≠ .float32 → k ≠ .float64 →
      Opposes (left.compare op right).result (left.compare op.negation right).result ∧
      ∀ scalar : k.Value, Opposes (left.compareScalar op scalar).result
        (left.compareScalar op.negation scalar).result) := by
  refine ⟨hl.holds.comparisonOutcome hr.holds op, ?_, ?_⟩
  · intro scalar
    exact ⟨exists_fills scalar left, hl.holds.comparesScalar op scalar⟩
  · intro h32 h64
    refine ⟨hl.holds.opposes_compare hr.holds h32 h64 op, ?_⟩
    intro scalar
    exact hl.holds.opposes_compareScalar h32 h64 op scalar

/-- Four rows in chunks of two, a null on either side; the verdicts fill one chunk. -/
theorem compare_aligned_of_nulls : ∃ left right : Column .int32,
    (ofRows "a" [some 1, none, some 3, some 4] (.withChunkRows .int32 2)).result = .ok left ∧
      (ofRows "b" [some 2, some 2, none, some 4] (.withChunkRows .int32 2)).result = .ok right ∧
      ComparisonOutcome .less left right (left.compare .less right).result ∧
      Opposes (left.compare .less right).result (left.compare .greaterOrEqual right).result := by
  obtain ⟨houtcome, -, hopposes⟩ := compare_aligned (k := .int32)
    (.ofRows "a" [some 1, none, some 3, some 4] (.withChunkRows .int32 2) rfl)
    (.ofRows "b" [some 2, some 2, none, some 4] (.withChunkRows .int32 2) rfl) .less
  exact ⟨_, _, rfl, rfl, houtcome, (hopposes (by decide) (by decide)).1⟩

end Column

end Columnar
