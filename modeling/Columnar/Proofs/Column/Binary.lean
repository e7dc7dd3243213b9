import Columnar.Proofs.Column.Reachable
/-!
# Binary operators on columns, row by row

The operator on columns works through chunks of stored values, under one of four arithmetics; the
operator on values is written apart from it. On reachable columns the first is determined by the
second: which error is found, in which order of precedence, and what every row holds when none is.
-/

namespace Columnar

variable {k : Kind}

/-! ### The operator on values -/

/-- Only the two floating-point kinds round. -/
lemma Kind.eq_float_of_rounding {k : Kind} {ops : ArithmeticOp → k.Value → k.Value → k.Value}
    (h : k.arithmetic = .rounding ops) : k = .float32 ∨ k = .float64 := by
  cases k
  case float32 => exact Or.inl rfl
  case float64 => exact Or.inr rfl
  all_goals cases h

lemma Kind.ne_float_of_exact {k : Kind} (h : ∀ ops, k.arithmetic ≠ .rounding ops) :
    k ≠ .float32 ∧ k ≠ .float64 := by
  constructor
  · rintro rfl
    exact h _ rfl
  · rintro rfl
    exact h _ rfl

/-- Only decimals are checked. -/
lemma Kind.eq_decimal_of_checked {k : Kind}
    {ops : ArithmeticOp → k.Value → k.Value → Option k.Value}
    (h : k.arithmetic = .checked ops) : k = .decimal := by
  cases k
  case decimal => rfl
  all_goals cases h

namespace BinaryOp

/-- The operators that refuse a zero on the right, on the kinds that refuse anything. -/
def Divides (op : BinaryOp) (k : Kind) : Prop :=
  (op = .arithmetic .divide ∨ op = .arithmetic .modulo) ∧ k ≠ .float32 ∧ k ≠ .float64

/-- A legal operator refuses two values for a zero divisor if it divides and the second is zero. -/
lemma onValues_eq_divideByZero_iff {op : BinaryOp} (hallows : k.support.allows (.binary op))
    (a b : k.Value) : op.onValues a b = .error (.divideByZero k) ↔
      op.Divides k ∧ Kind.Value.isZero b := by
  rw [← k.support_arithmetic] at hallows
  have hdiv : ∀ op : ArithmeticOp, op.isDivision ↔ op = .divide ∨ op = .modulo := by
    intro op
    cases op <;> simp [ArithmeticOp.isDivision]
  rcases harith : k.arithmetic with ops | ops | ops | ops <;> rcases op with op | op
  case wrapping.arithmetic =>
    have hkind := k.ne_float_of_exact (by simp [harith])
    simp only [onValues, harith, Divides, BinaryOp.arithmetic.injEq, ← hdiv]
    split_ifs with hb
    · simpa [hkind] using hb
    · simpa [hkind] using hb
  case checked.arithmetic =>
    have hkind := k.ne_float_of_exact (by simp [harith])
    simp only [onValues, harith, Divides, BinaryOp.arithmetic.injEq, ← hdiv]
    split_ifs with hb
    · simpa [hkind] using hb
    · rcases ops op a b with _ | c
      · simpa [hkind] using hb
      · simpa [hkind] using hb
  case rounding.arithmetic =>
    rcases k.eq_float_of_rounding harith with rfl | rfl <;> simp [onValues, harith, Divides]
  case wrapping.bitwise | logical.bitwise => simp [onValues, harith, Divides]
  all_goals
    rw [harith] at hallows
    exact absurd hallows Bool.false_ne_true

/-- Only decimals overflow. -/
lemma eq_decimal_of_onValues_eq_overflow {op : BinaryOp} {a b : k.Value}
    (h : op.onValues a b = .error (.overflow k op)) : k = .decimal := by
  rcases harith : k.arithmetic with ops | ops | ops | ops <;> rcases op with op | op
  case checked.arithmetic => exact k.eq_decimal_of_checked harith
  case wrapping.arithmetic =>
    simp only [onValues, harith] at h
    split_ifs at h
    all_goals cases h
  all_goals
    simp only [onValues, harith] at h
    cases h

end BinaryOp

namespace Column

/-! ### The operator on columns -/

/-- Some row with both operands has a zero divisor. -/
def HasZeroDivisor (op : BinaryOp) (left right : Column k) : Prop :=
  op.Divides k ∧ ∃ i a b, left.get i = .ok (some a) ∧ right.get i = .ok (some b) ∧
    Kind.Value.isZero b

/-- The columns are of decimals, and some row with both operands overflows. -/
def Overflows (op : BinaryOp) (left right : Column k) : Prop :=
  k = .decimal ∧ ∃ i a b, left.get i = .ok (some a) ∧ right.get i = .ok (some b) ∧
    op.onValues a b = .error (.overflow k op)

/-- How a binary operator in place ends, in the order of precedence, and what it leaves behind. -/
structure BinaryOutcome (op : BinaryOp) (left right : Column k)
    (outcome : Outcome (Column k) Unit) : Prop where
  unsupported : ¬ k.support.allows (.binary op) →
    outcome.result = .error (.unsupportedOperation k (.binary op))
  lengthMismatch : k.support.allows (.binary op) → left.len ≠ right.len →
    outcome.result = .error (.lengthMismatch left.len right.len)
  layoutMismatch : k.support.allows (.binary op) → left.len = right.len →
    left.container.sizes ≠ right.container.sizes →
    ∃ j, left.container.sizes[j]? ≠ right.container.sizes[j]? ∧
      (∀ i < j, left.container.sizes[i]? = right.container.sizes[i]?) ∧
      outcome.result = .error (.layoutMismatch j (left.container.sizes[j]?.getD 0)
        (right.container.sizes[j]?.getD 0))
  divideByZero : k.support.allows (.binary op) → left.container.sizes = right.container.sizes →
    HasZeroDivisor op left right → outcome.result = .error (.divideByZero k)
  overflow : k.support.allows (.binary op) → left.container.sizes = right.container.sizes →
    ¬ HasZeroDivisor op left right → Overflows op left right →
    outcome.result = .error (.overflow k op)
  succeeds : k.support.allows (.binary op) → left.container.sizes = right.container.sizes →
    ¬ HasZeroDivisor op left right → ¬ Overflows op left right → outcome.result = .ok ()
  /-- A row of the result is null if either operand is, and otherwise has the operator's value. -/
  rows : outcome.result = .ok () → ∀ i < left.len, ∃ x y z, left.get i = .ok x ∧
    right.get i = .ok y ∧ outcome.state.get i = .ok z ∧ (z = none ↔ x = none ∨ y = none) ∧
    ∀ a b, x = some a → y = some b → ∃ v, op.onValues a b = .ok v ∧ z = some v
  /-- Nothing but the rows has changed. -/
  frame : outcome.result = .ok () → outcome.state.name = left.name ∧
    outcome.state.options = left.options ∧ outcome.state.len = left.len ∧
    outcome.state.container.sizes = left.container.sizes

section

variable {op : BinaryOp} {left right : Column k} {o o' : Options} {s t : List (Slot k)}

lemma hasZeroDivisor_iff (hl : left.container.Stores o s) (hr : right.container.Stores o' t)
    (hallows : k.support.allows (.binary op)) :
    HasZeroDivisor op left right ↔ Container.FailsWith op (.divideByZero k) s t := by
  rw [Container.failsWith_iff hl hr]
  simp only [BinaryOp.onValues_eq_divideByZero_iff hallows, HasZeroDivisor]
  constructor
  · rintro ⟨hdiv, i, a, b, ha, hb, hzero⟩
    exact ⟨i, a, b, ha, hb, hdiv, hzero⟩
  · rintro ⟨i, a, b, ha, hb, hdiv, hzero⟩
    exact ⟨hdiv, i, a, b, ha, hb, hzero⟩

lemma overflows_iff (hl : left.container.Stores o s) (hr : right.container.Stores o' t) :
    Overflows op left right ↔ Container.FailsWith op (.overflow k op) s t := by
  rw [Container.failsWith_iff hl hr]
  constructor
  · rintro ⟨-, h⟩
    exact h
  · -- the kind need not be asked for: the operators of the others do not overflow
    rintro ⟨i, a, b, ha, hb, he⟩
    exact ⟨BinaryOp.eq_decimal_of_onValues_eq_overflow he, i, a, b, ha, hb, he⟩

/-- What a function of slots that agrees with the operator leaves in a row. -/
lemma rows_of_agrees {d : Container k} {g : Slot k → Slot k → Slot k}
    (hl : left.container.Stores o s) (hr : right.container.Stores o' t) (hlen : s.length = t.length)
    (hd : d.Stores o (List.zipWith g s t)) (hagrees : Container.Agrees op g s t) {i : ℕ}
    (hi : i < s.length) : ∃ x y z, left.get i = .ok x ∧ right.get i = .ok y ∧ d.get i = .ok z ∧
      (z = none ↔ x = none ∨ y = none) ∧
      ∀ a b, x = some a → y = some b → ∃ v, op.onValues a b = .ok v ∧ z = some v := by
  have hi' : i < t.length := by omega
  have hz : i < (List.zipWith g s t).length := by
    rw [List.length_zipWith]
    omega
  refine ⟨_, _, _, hl.get_eq_ok hi, hr.get_eq_ok hi', hd.get_eq_ok hz, ?_⟩
  have hpair : (s[i], t[i]) ∈ s.zip t := List.mem_iff_getElem.2 ⟨i, by simp [hi, hi'], by simp⟩
  obtain ⟨hflag, hvalue⟩ := hagrees (s[i], t[i]) hpair
  rw [List.getElem_zipWith]
  constructor
  · rw [Slot.cell_eq_none_iff, Slot.cell_eq_none_iff, Slot.cell_eq_none_iff, hflag,
      Bool.and_eq_false_iff]
  · intro a b ha hb
    obtain ⟨hvalid, hvalid'⟩ : s[i].2 = true ∧ t[i].2 = true := by
      rw [Slot.cell_eq_some_iff.1 ha, Slot.cell_eq_some_iff.1 hb]
      exact ⟨rfl, rfl⟩
    rw [Slot.cell_of_valid hvalid, Option.some.injEq] at ha
    rw [Slot.cell_of_valid hvalid', Option.some.injEq] at hb
    rw [← ha, ← hb]
    refine ⟨(g s[i] t[i]).1, hvalue hvalid hvalid', Slot.cell_of_valid ?_⟩
    rw [hflag, hvalid, hvalid']
    rfl

lemma check_eq_ok {op : Operator} (hallows : k.support.allows op) : check k op = .ok () := by
  rw [check, k.support_arithmetic, Support.check, if_pos hallows]

lemma check_eq_error {op : Operator} (hallows : ¬ k.support.allows op) :
    check k op = .error (.unsupportedOperation k op) := by
  rw [check, k.support_arithmetic, Support.check, if_neg hallows]

lemma refuses_binaryInPlace {e : ColumnError} (hallows : k.support.allows (.binary op))
    (h : (Container.binary op right.container).Refuses left.container e) :
    (binaryInPlace op right).Refuses left e := by
  exact (Edit.yields_ofExcept (check_eq_ok hallows) left).refuses (h.within rfl)

lemma yields_binaryInPlace {d : Container k} (hallows : k.support.allows (.binary op))
    (h : (Container.binary op right.container).Yields left.container () d) :
    (binaryInPlace op right).Yields left () ⟨left.name, d⟩ := by
  exact (Edit.yields_ofExcept (check_eq_ok hallows) left).bind (Edit.Yields.within _ h)

/-! ### The errors, in their order -/

/-- An operator that is not legal for the kind is refused, whatever the columns are. -/
lemma result_of_not_allows (hallows : ¬ k.support.allows (.binary op)) (left right : Column k) :
    (binaryInPlace op right left).result = .error (.unsupportedOperation k (.binary op)) := by
  have hcheck := Edit.refuses_ofExcept (check_eq_error hallows) left
  exact (hcheck.bind fun _ => onContainer (Container.binary op right.container)).result

lemma result_of_len_ne (hallows : k.support.allows (.binary op)) (hne : left.len ≠ right.len) :
    (binaryInPlace op right left).result = .error (.lengthMismatch left.len right.len) :=
  (refuses_binaryInPlace hallows (Container.refuses_binary_of_layout hallows
    (Container.Stores.checkLayout_of_len_ne hne))).result

lemma result_of_sizes_ne (hl : left.container.Stores o s) (hr : right.container.Stores o' t)
    (hallows : k.support.allows (.binary op)) (hlen : left.len = right.len)
    (hne : left.container.sizes ≠ right.container.sizes) :
    ∃ j, left.container.sizes[j]? ≠ right.container.sizes[j]? ∧
      (∀ i < j, left.container.sizes[i]? = right.container.sizes[i]?) ∧
      (binaryInPlace op right left).result = .error (.layoutMismatch j
        (left.container.sizes[j]?.getD 0) (right.container.sizes[j]?.getD 0)) := by
  obtain ⟨j, hj, hlt, he⟩ := hl.checkLayout_of_sizes_ne hr hlen hne
  exact ⟨j, hj, hlt, (refuses_binaryInPlace hallows
    (Container.refuses_binary_of_layout hallows he)).result⟩

lemma result_of_hasZeroDivisor (hl : left.container.Stores o s)
    (hr : right.container.Stores o' t) (hallows : k.support.allows (.binary op))
    (heq : left.container.sizes = right.container.sizes) (h : HasZeroDivisor op left right) :
    (binaryInPlace op right left).result = .error (.divideByZero k) := by
  rw [hasZeroDivisor_iff hl hr hallows] at h
  exact (refuses_binaryInPlace hallows
    ((Container.binarySpec hl hr heq hallows).divideByZero h)).result

lemma result_of_overflows (hl : left.container.Stores o s) (hr : right.container.Stores o' t)
    (hallows : k.support.allows (.binary op))
    (heq : left.container.sizes = right.container.sizes)
    (hzero : ¬ HasZeroDivisor op left right) (h : Overflows op left right) :
    (binaryInPlace op right left).result = .error (.overflow k op) := by
  rw [hasZeroDivisor_iff hl hr hallows] at hzero
  rw [overflows_iff hl hr] at h
  exact (refuses_binaryInPlace hallows
    ((Container.binarySpec hl hr heq hallows).overflow hzero h)).result

/-! ### Success -/

/-- Without an error to be found, the operator succeeds. -/
lemma exists_yields (hl : left.container.Stores o s) (hr : right.container.Stores o' t)
    (hallows : k.support.allows (.binary op))
    (heq : left.container.sizes = right.container.sizes)
    (hzero : ¬ HasZeroDivisor op left right) (hover : ¬ Overflows op left right) :
    ∃ d g, (binaryInPlace op right).Yields left () ⟨left.name, d⟩ ∧
      d.Stores o (List.zipWith g s t) ∧ Container.Agrees op g s t := by
  rw [hasZeroDivisor_iff hl hr hallows] at hzero
  rw [overflows_iff hl hr] at hover
  obtain ⟨d, g, hd, hstores, hagrees⟩ :=
    (Container.binarySpec hl hr heq hallows).succeeds hzero hover
  exact ⟨d, g, yields_binaryInPlace hallows hd, hstores, hagrees⟩

/-- A success rules out every error, so that it is the one with all results. -/
lemma exists_yields_of_result (hl : left.container.Stores o s) (hr : right.container.Stores o' t)
    (hok : (binaryInPlace op right left).result = .ok ()) :
    ∃ d g, (binaryInPlace op right).Yields left () ⟨left.name, d⟩ ∧
      d.Stores o (List.zipWith g s t) ∧ Container.Agrees op g s t ∧ s.length = t.length := by
  have hallows : k.support.allows (.binary op) := by
    by_contra h
    simp [result_of_not_allows h] at hok
  have heq : left.container.sizes = right.container.sizes := by
    by_contra h
    by_cases hlen : left.len = right.len
    · obtain ⟨j, -, -, he⟩ := result_of_sizes_ne hl hr hallows hlen h
      simp [he] at hok
    · simp [result_of_len_ne hallows hlen] at hok
  have hzero : ¬ HasZeroDivisor op left right := fun h => by
    simp [result_of_hasZeroDivisor hl hr hallows heq h] at hok
  have hover : ¬ Overflows op left right := fun h => by
    simp [result_of_overflows hl hr hallows heq hzero h] at hok
  obtain ⟨d, g, hd, hstores, hagrees⟩ := exists_yields hl hr hallows heq hzero hover
  exact ⟨d, g, hd, hstores, hagrees, hl.length_eq hr heq⟩

end

/-- The operator in place on reachable columns is determined by the operator on values. -/
theorem binaryInPlace_outcome (op : BinaryOp) {left right : Column k} (hleft : left.Reachable)
    (hright : right.Reachable) : BinaryOutcome op left right (binaryInPlace op right left) := by
  obtain ⟨o, s, hl⟩ := hleft.sound
  obtain ⟨o', t, hr⟩ := hright.sound
  constructor
  case unsupported => exact fun h => result_of_not_allows h left right
  case lengthMismatch => exact result_of_len_ne
  case layoutMismatch => exact result_of_sizes_ne hl hr
  case divideByZero => exact result_of_hasZeroDivisor hl hr
  case overflow => exact result_of_overflows hl hr
  case succeeds =>
    intro hallows heq hzero hover
    obtain ⟨d, g, hd, -, -⟩ := exists_yields hl hr hallows heq hzero hover
    exact hd.result
  case rows =>
    intro hok i hi
    obtain ⟨d, g, hd, hstores, hagrees, hlen⟩ := exists_yields_of_result hl hr hok
    rw [hd.state]
    exact rows_of_agrees hl hr hlen hstores hagrees (hl.len_eq ▸ hi)
  case frame =>
    intro hok
    obtain ⟨d, g, hd, hstores, -, hlen⟩ := exists_yields_of_result hl hr hok
    have hdlen : d.len = left.container.len := by
      rw [hstores.len_eq, List.length_zipWith, ← hlen, min_self, ← hl.len_eq]
    rw [hd.state]
    refine ⟨rfl, hstores.options_eq.trans hl.options_eq.symm, hdlen, ?_⟩
    exact hstores.map_len.trans (hdlen ▸ hl.map_len.symm)

/-- Division of a column with a null by one with a zero in the same row. -/
theorem binaryInPlace_outcome_of_null_over_zero : ∃ left right : Column .int32,
    (ofRows "a" [some 7, none, some 9] (.withChunkRows .int32 2)).result = .ok left ∧
      (ofRows "b" [some 2, some 0, some 4] (.withChunkRows .int32 2)).result = .ok right ∧
      BinaryOutcome (.arithmetic .divide) left right
        (binaryInPlace (.arithmetic .divide) right left) :=
  ⟨_, _, rfl, rfl, binaryInPlace_outcome _
    (.ofRows "a" [some 7, none, some 9] (.withChunkRows .int32 2) rfl)
    (.ofRows "b" [some 2, some 0, some 4] (.withChunkRows .int32 2) rfl)⟩

end Column

end Columnar
