import Columnar.Proofs.Column.Broadcast
import Columnar.Proofs.Decimal.Remainder
/-!
# Remainders of decimal columns

A remainder of decimals that is taken is exact, but it is not always taken where it is defined. It
is refused as an overflow, for the whole column, when some row has the smallest decimal on the left
and minus one unit on the right: zero would be the remainder, but there is no quotient. With no such
row and no zero divisor, the operator succeeds. All of this is the same for two columns and for a
column and a scalar on either side.
-/

namespace Columnar

namespace BinaryOp

/-! ### The remainder of two rows -/

lemma isZero_decimal_iff (b : Decimal) : Kind.Value.isZero (k := .decimal) b ↔ b.raw = 0 := by
  show Comparison.equal.holds (some (compare b.raw 0)) = true ↔ _
  rw [← Int.compare_eq_eq]
  rcases compare b.raw 0 with _ | _ | _ <;> decide

/-- A zero divisor is found first, then a remainder that is missing. -/
lemma onValues_modulo (a b : Decimal) : (arithmetic .modulo).onValues (k := .decimal) a b =
    if b.raw = 0 then .error (.divideByZero .decimal)
    else (a.mod? b).elim (.error (.overflow .decimal (.arithmetic .modulo))) .ok := by
  obtain ⟨ops, harith, hops⟩ :
      ∃ ops, Kind.arithmetic .decimal = .checked ops ∧ ops .modulo = Decimal.mod? := ⟨_, rfl, rfl⟩
  simp only [onValues, harith, hops, ArithmeticOp.isDivision, Bool.true_and, isZero_decimal_iff]
  rcases a.mod? b with _ | d <;> rfl

lemma onCells_modulo_eq_divideByZero_iff {x y : Cell .decimal} :
    (arithmetic .modulo).onCells x y = .error (.divideByZero .decimal) ↔
      ∃ a b, x = some a ∧ y = some b ∧ b.raw = 0 := by
  rw [onCells_eq_error_iff]
  refine exists₂_congr fun a b => and_congr_right fun _ => and_congr_right fun _ => ?_
  rw [onValues_modulo]
  split_ifs with hb
  · simp [hb]
  · rcases a.mod? b with _ | d <;> simp [hb]

lemma onCells_modulo_eq_overflow {a b : Decimal} (h : a = .min ∧ b.raw = -1) :
    (arithmetic .modulo).onCells (k := .decimal) (some a) (some b)
      = .error (.overflow .decimal (.arithmetic .modulo)) := by
  have hb : b.raw ≠ 0 := by omega
  rw [onCells, onValues_modulo, if_neg hb, (Decimal.mod?_eq_none_iff a b).2 (.inr h)]
  rfl

/-- The remainder of two rows. -/
def remainderCell (x y : Cell .decimal) : Cell .decimal := x.bind fun a => y.bind a.mod?

lemma onCells_modulo_eq_ok {x y : Cell .decimal}
    (h : ∀ a b, x = some a → y = some b → b.raw ≠ 0 ∧ ¬ (a = .min ∧ b.raw = -1)) :
    (arithmetic .modulo).onCells x y = .ok (remainderCell x y) := by
  rcases x with _ | a <;> rcases y with _ | b
  case some.some =>
    obtain ⟨hb, hpair⟩ := h a b rfl rfl
    obtain ⟨d, hd, -⟩ := Decimal.exists_mod?_eq_some hb hpair
    rw [onCells, onValues_modulo, if_neg hb, hd]
    exact congrArg Except.ok hd.symm
  all_goals rfl

/-! ### The remainders of pairs -/

variable {pairs : List (Cell .decimal × Cell .decimal)}

lemma onPairs_modulo_eq_ok
    (h : ∀ a b, (some a, some b) ∈ pairs → b.raw ≠ 0 ∧ ¬ (a = .min ∧ b.raw = -1)) :
    (arithmetic .modulo).onPairs pairs = .ok (pairs.map fun p => remainderCell p.1 p.2) := by
  have hcells : ∀ p ∈ pairs, (arithmetic .modulo).onCells (id p).1 (id p).2
      = .ok (remainderCell p.1 p.2) := by
    rintro ⟨x, y⟩ hp
    refine onCells_modulo_eq_ok fun a b hx hy => ?_
    obtain rfl : x = some a := hx
    obtain rfl : y = some b := hy
    exact h a b hp
  have hpairs := onPairs_eq_ok hcells
  rwa [List.map_id] at hpairs

lemma onPairs_modulo_eq_divideByZero {a b : Decimal} (hp : (some a, some b) ∈ pairs)
    (hb : b.raw = 0) : (arithmetic .modulo).onPairs pairs = .error (.divideByZero .decimal) :=
  onPairs_eq_divideByZero_iff.2
    ⟨_, hp, onCells_modulo_eq_divideByZero_iff.2 ⟨a, b, rfl, rfl, hb⟩⟩

/-- An overflow is reported only if no divisor is zero. -/
lemma onPairs_modulo_eq_overflow (hzero : ∀ a b, (some a, some b) ∈ pairs → b.raw ≠ 0)
    {a b : Decimal} (hp : (some a, some b) ∈ pairs) (hpair : a = .min ∧ b.raw = -1) :
    (arithmetic .modulo).onPairs pairs = .error (.overflow .decimal (.arithmetic .modulo)) := by
  have hnone : ¬ ∃ p ∈ pairs, (arithmetic .modulo).onCells (id p).1 (id p).2
      = .error (.divideByZero .decimal) := by
    rintro ⟨⟨x, y⟩, hp, he⟩
    obtain ⟨a, b, rfl, rfl, hb⟩ := onCells_modulo_eq_divideByZero_iff.1 he
    exact hzero a b hp hb
  have hpairs := onPairs_eq_overflow (by decide) hnone ⟨_, hp, onCells_modulo_eq_overflow hpair⟩
  rwa [List.map_id] at hpairs

end BinaryOp

namespace Column

/-! ### The remainders of a column -/

/-- How the remainders of the rows with two operands are taken, where the operands of row `i` are
those that `x` and `y` have there. -/
structure TakesRemainders (x y : ℕ → Except ColumnError (Cell .decimal)) (c : Column .decimal)
    (outcome : Outcome (Column .decimal) Unit) : Prop where
  /-- Without a zero divisor and without the smallest decimal over minus one unit, every row gets
  its exact remainder. -/
  succeeds : (∀ i a b, x i = .ok (some a) → y i = .ok (some b) →
      b.raw ≠ 0 ∧ ¬ (a = .min ∧ b.raw = -1)) →
    outcome.result = .ok () ∧ ∀ i a b, x i = .ok (some a) → y i = .ok (some b) →
      ∃ d : Decimal, outcome.state.get i = .ok (some d) ∧
        d.raw = a.raw - b.raw * a.raw.tdiv b.raw
  /-- A zero divisor in any row is refused, and no row is changed. -/
  dividesByZero : (∃ i a b, x i = .ok (some a) ∧ y i = .ok (some b) ∧ b.raw = 0) →
    outcome.result = .error (.divideByZero .decimal) ∧ outcome.state = c
  /-- Without a zero divisor, the smallest decimal over minus one unit in any row is refused, and no
  row is changed. -/
  overflows : (∀ i a b, x i = .ok (some a) → y i = .ok (some b) → b.raw ≠ 0) →
    (∃ i a b, x i = .ok (some a) ∧ y i = .ok (some b) ∧ a = .min ∧ b.raw = -1) →
    outcome.result = .error (.overflow .decimal (.arithmetic .modulo)) ∧ outcome.state = c

variable {name : String} {o o' : Options} {xs ys rows : List (Cell .decimal)}
  {c right : Column .decimal}

lemma takesRemainders_of_refines {x y : ℕ → Except ColumnError (Cell .decimal)}
    {m : Edit (Column .decimal) Unit} {pairs : List (Cell .decimal × Cell .decimal)}
    (hm : m.Refines c (Holds name o) (BinaryOp.onPairs (.arithmetic .modulo) pairs))
    (hpairs : ∀ i a b, x i = .ok (some a) ∧ y i = .ok (some b) ↔
      pairs[i]? = some (some a, some b)) : TakesRemainders x y c (m c) := by
  have hoperands : ∀ a b, (some a, some b) ∈ pairs →
      ∃ i, x i = .ok (some a) ∧ y i = .ok (some b) := by
    intro a b hp
    obtain ⟨i, hi⟩ := List.mem_iff_getElem?.1 hp
    exact ⟨i, (hpairs i a b).2 hi⟩
  refine ⟨fun h => ?_, ?_, ?_⟩
  · have hregular : ∀ a b, (some a, some b) ∈ pairs → b.raw ≠ 0 ∧ ¬ (a = .min ∧ b.raw = -1) := by
      intro a b hp
      obtain ⟨i, hx, hy⟩ := hoperands a b hp
      exact h i a b hx hy
    rw [BinaryOp.onPairs_modulo_eq_ok hregular] at hm
    obtain ⟨d, hd, hholds⟩ := hm
    -- row `i` of the result is the remainder of the pair with this number
    refine ⟨hd.result, fun i a b hx hy => ?_⟩
    obtain ⟨hb, hpair⟩ := h i a b hx hy
    obtain ⟨r, hr, hraw⟩ := Decimal.exists_mod?_eq_some hb hpair
    refine ⟨r, ?_, hraw⟩
    rw [hd.state]
    refine hholds.get_eq_ok_iff.2 ?_
    rw [List.getElem?_map, (hpairs i a b).1 ⟨hx, hy⟩]
    exact congrArg some hr
  · rintro ⟨i, a, b, hx, hy, hb⟩
    have hp := List.mem_of_getElem? ((hpairs i a b).1 ⟨hx, hy⟩)
    rw [BinaryOp.onPairs_modulo_eq_divideByZero hp hb] at hm
    exact ⟨Edit.Refuses.result hm, Edit.Refuses.state hm⟩
  · rintro hzero ⟨i, a, b, hx, hy, hpair⟩
    have hp := List.mem_of_getElem? ((hpairs i a b).1 ⟨hx, hy⟩)
    have hnonzero : ∀ a b, (some a, some b) ∈ pairs → b.raw ≠ 0 := by
      intro a b hp
      obtain ⟨i, hx, hy⟩ := hoperands a b hp
      exact hzero i a b hx hy
    rw [BinaryOp.onPairs_modulo_eq_overflow hnonzero hp hpair] at hm
    exact ⟨Edit.Refuses.result hm, Edit.Refuses.state hm⟩

lemma check_modulo : check .decimal (.binary (.arithmetic .modulo)) = .ok () :=
  check_eq_ok rfl

/-- Two columns, row by row. -/
lemma Holds.takesRemainders_binaryInPlace (h : c.Holds name o xs)
    (h' : right.container.Holds o' ys) (heq : c.container.sizes = right.container.sizes) :
    TakesRemainders c.get right.get c (binaryInPlace (.arithmetic .modulo) right c) := by
  have hlayout := h.2.checkLayout_of_sizes_eq h' heq
  have hrefines := refines_binaryInPlace h h' (.arithmetic .modulo)
  rw [check_modulo, hlayout] at hrefines
  refine takesRemainders_of_refines hrefines fun i a b => ?_
  rw [List.getElem?_zip_eq_some, h.get_eq_ok_iff]
  exact and_congr_right fun _ => h'.get_eq_ok_iff

/-- A column and a scalar, with every row of the column. -/
lemma Holds.takesRemainders_binaryScalarInPlace (h : c.Holds name o rows) (scalar : Decimal) :
    TakesRemainders c.get (fun _ => .ok (some scalar)) c
        (binaryScalarInPlace (k := .decimal) (.arithmetic .modulo) scalar false c) ∧
      TakesRemainders (fun _ => .ok (some scalar)) c.get c
        (binaryScalarInPlace (k := .decimal) (.arithmetic .modulo) scalar true c) := by
  have hrefines := fun reverse =>
    refines_binaryScalarInPlace (k := .decimal) h (.arithmetic .modulo) scalar reverse
  rw [check_modulo] at hrefines
  constructor
  · refine takesRemainders_of_refines (hrefines false) fun i a b => ?_
    rw [h.get_eq_ok_iff, List.getElem?_map]
    rcases rows[i]? with _ | u <;> simp [BinaryOp.beside]
  · refine takesRemainders_of_refines (hrefines true) fun i a b => ?_
    rw [h.get_eq_ok_iff, List.getElem?_map]
    rcases rows[i]? with _ | u <;> simp [BinaryOp.beside, and_comm]

/-- **Remainders are exact, but for one pair of operands.** On reachable decimal columns of one
layout, and on a reachable decimal column with a scalar on either side, the remainder in place
succeeds when no row with two operands divides by zero or the smallest decimal by minus one unit,
and each of these rows then holds what the truncated quotient leaves. The smallest decimal over
minus one unit is refused as an overflow, although zero would be the remainder, and a zero divisor
before that; the column then stays as it was. -/
theorem Reachable.remainders_exact (hc : c.Reachable) :
    (∀ right : Column .decimal, right.Reachable → c.container.sizes = right.container.sizes →
      TakesRemainders c.get right.get c (binaryInPlace (.arithmetic .modulo) right c)) ∧
    ∀ scalar : Decimal,
      TakesRemainders c.get (fun _ => .ok (some scalar)) c
        (binaryScalarInPlace (k := .decimal) (.arithmetic .modulo) scalar false c) ∧
      TakesRemainders (fun _ => .ok (some scalar)) c.get c
        (binaryScalarInPlace (k := .decimal) (.arithmetic .modulo) scalar true c) := by
  refine ⟨fun right hright heq => ?_, hc.holds.takesRemainders_binaryScalarInPlace⟩
  exact hc.holds.takesRemainders_binaryInPlace hright.holds.2 heq

/-- A column of one row has no other value. -/
lemma Reachable.eq_of_get {a v : Decimal} {i : ℕ} (hc : c.Reachable) (hrows : c.rows = [some v])
    (hget : c.get i = .ok (some a)) : a = v := by
  have hmem := hc.holds.get_eq_ok_iff.1 hget
  rw [hrows] at hmem
  simpa using List.mem_of_getElem? hmem

/-- The smallest decimal over plus one unit leaves nothing. -/
theorem remainders_exact_of_min : ∃ c right : Column .decimal,
    (ofRows "a" [some Decimal.min] {}).result = .ok c ∧
      (ofRows "b" [some Decimal.unit] {}).result = .ok right ∧
      c.container.sizes = right.container.sizes ∧
      (binaryInPlace (.arithmetic .modulo) right c).result = .ok () ∧
      (binaryScalarInPlace (k := .decimal) (.arithmetic .modulo) .unit false c).result
        = .ok () := by
  obtain ⟨c, hc, hsizes⟩ : ∃ c : Column .decimal,
      (ofRows "a" [some Decimal.min] {}).result = .ok c ∧ c.container.sizes = [1] :=
    ⟨_, rfl, rfl⟩
  obtain ⟨right, hright, hsizes', hrows⟩ : ∃ right : Column .decimal,
      (ofRows "b" [some Decimal.unit] {}).result = .ok right ∧
        right.container.sizes = [1] ∧ right.rows = [some Decimal.unit] := ⟨_, rfl, rfl, rfl⟩
  have hreach : right.Reachable := .ofRows "b" _ {} hright
  have heq := hsizes.trans hsizes'.symm
  have hunit : Decimal.unit.raw ≠ 0 ∧ ¬ Decimal.unit.raw = -1 := by decide
  obtain ⟨hcolumns, hscalars⟩ := Reachable.remainders_exact (.ofRows "a" _ {} hc)
  refine ⟨c, right, hc, hright, heq, ?_, ?_⟩
  · refine ((hcolumns right hreach heq).succeeds fun i a b _ hb => ?_).1
    obtain rfl := hreach.eq_of_get hrows hb
    exact ⟨hunit.1, fun h => hunit.2 h.2⟩
  · refine ((hscalars .unit).1.succeeds fun i a b _ hb => ?_).1
    obtain rfl : Decimal.unit = b := Option.some.inj (Except.ok.inj hb)
    exact ⟨hunit.1, fun h => hunit.2 h.2⟩

/-- The smallest decimal over minus one unit is refused, although no divisor is zero. -/
theorem remainder_of_min_refused : ∃ c right : Column .decimal,
    (ofRows "a" [some Decimal.min] {}).result = .ok c ∧
      (ofRows "b" [some Decimal.minusUnit] {}).result = .ok right ∧
      c.container.sizes = right.container.sizes ∧
      (∀ i a b, c.get i = .ok (some a) → right.get i = .ok (some b) → b.raw ≠ 0) ∧
      (binaryInPlace (.arithmetic .modulo) right c).result
        = .error (.overflow .decimal (.arithmetic .modulo)) := by
  obtain ⟨c, hc, hget, hsizes⟩ : ∃ c : Column .decimal,
      (ofRows "a" [some Decimal.min] {}).result = .ok c ∧ c.get 0 = .ok (some Decimal.min) ∧
        c.container.sizes = [1] := ⟨_, rfl, rfl, rfl⟩
  obtain ⟨right, hright, hget', hsizes', hrows⟩ : ∃ right : Column .decimal,
      (ofRows "b" [some Decimal.minusUnit] {}).result = .ok right ∧
        right.get 0 = .ok (some Decimal.minusUnit) ∧ right.container.sizes = [1] ∧
        right.rows = [some Decimal.minusUnit] := ⟨_, rfl, rfl, rfl, rfl⟩
  have hreach : c.Reachable := .ofRows "a" _ {} hc
  have hreach' : right.Reachable := .ofRows "b" _ {} hright
  have heq := hsizes.trans hsizes'.symm
  have hzero : ∀ i a b, c.get i = .ok (some a) → right.get i = .ok (some b) → b.raw ≠ 0 := by
    intro i a b _ hb
    obtain rfl := hreach'.eq_of_get hrows hb
    decide
  have htakes := hreach.holds.takesRemainders_binaryInPlace hreach'.holds.2 heq
  exact ⟨c, right, hc, hright, heq, hzero,
    (htakes.overflows hzero ⟨0, _, _, hget, hget', rfl, rfl⟩).1⟩

end Column

end Columnar
