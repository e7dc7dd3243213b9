import Columnar.Proofs.Column.Binary
import Columnar.Proofs.Column.Rows
/-!
# An operator with a scalar as an operator with a column

An operator with a scalar has loops and a check for zero divisors of its own. It does the same as
the operator on two columns, one of which has the scalar in every row: the same rows, and the same
error if there is one, whichever side the scalar is on.
-/

namespace Columnar

variable {k : Kind} {op : BinaryOp} {scalar : k.Value} {rows : List (Cell k)}

/-! ### Pairs with a constant -/

/-- Putting a scalar beside every row is pairing the rows with copies of the scalar. -/
lemma map_beside (scalar : k.Value) (reverse : Bool) (rows : List (Cell k)) :
    rows.map (BinaryOp.beside scalar reverse)
      = if reverse then (List.replicate rows.length (some scalar)).zip rows
        else rows.zip (List.replicate rows.length (some scalar)) := by
  induction rows with
  | nil => cases reverse <;> rfl
  | cons x rows ih =>
    rw [List.map_cons, ih, List.length_cons, List.replicate_succ]
    cases reverse <;> rfl

/-- A zero divisor is refused if there is a value to be divided, and without one nothing is. -/
lemma onPairs_beside_zero (hallows : k.support.allows (.binary op)) (hdiv : op.Divides k)
    (hzero : Kind.Value.isZero scalar) (e : ColumnError) :
    op.onPairs (rows.map (BinaryOp.beside scalar false)) = .error e ↔
      e = .divideByZero k ∧ ∃ v, some v ∈ rows := by
  by_cases hrows : ∃ v, some v ∈ rows
  · obtain ⟨v, hv⟩ := id hrows
    have hcells : op.onCells (some v) (some scalar) = .error (.divideByZero k) :=
      BinaryOp.onCells_eq_error_iff.2 ⟨v, scalar, rfl, rfl,
        (BinaryOp.onValues_eq_divideByZero_iff hallows v scalar).2 ⟨hdiv, hzero⟩⟩
    rw [BinaryOp.onPairs_eq_divideByZero ⟨some v, hv, hcells⟩]
    simp [hrows, eq_comm]
  · have hcells : ∀ x ∈ rows, op.onCells (BinaryOp.beside scalar false x).1
        (BinaryOp.beside scalar false x).2 = .ok none := by
      intro x hx
      rcases x with _ | v
      · rfl
      · exact absurd ⟨v, hx⟩ hrows
    rw [BinaryOp.onPairs_eq_ok hcells]
    simp [hrows]

/-- With the scalar on the left, a zero divisor is a row that has the value zero. -/
lemma onPairs_beside_reverse (hallows : k.support.allows (.binary op)) (hdiv : op.Divides k) :
    op.onPairs (rows.map (BinaryOp.beside scalar true)) = .error (.divideByZero k) ↔
      ∃ v, some v ∈ rows ∧ Kind.Value.isZero v := by
  rw [BinaryOp.onPairs_eq_divideByZero_iff]
  constructor
  · rintro ⟨p, hp, he⟩
    obtain ⟨x, hx, rfl⟩ := List.mem_map.1 hp
    obtain ⟨a, b, -, hb, hab⟩ := BinaryOp.onCells_eq_error_iff.1 he
    obtain rfl : x = some b := hb
    exact ⟨b, hx, ((BinaryOp.onValues_eq_divideByZero_iff hallows a b).1 hab).2⟩
  · rintro ⟨v, hv, hzero⟩
    refine ⟨_, List.mem_map_of_mem hv, BinaryOp.onCells_eq_error_iff.2 ⟨scalar, v, rfl, rfl, ?_⟩⟩
    exact (BinaryOp.onValues_eq_divideByZero_iff hallows scalar v).2 ⟨hdiv, hzero⟩

namespace Column

variable {name : String} {o : Options} {c filled : Column k}

/-- How an operator with a scalar relates to the operator on two columns, of which the second has
the scalar in every row. -/
structure Broadcasts (op : BinaryOp) (scalar : k.Value) (c filled : Column k) : Prop where
  right : (c.binaryScalar op scalar false).result.map Column.rows
    = (c.binary op filled).result.map Column.rows
  left : (c.binaryScalar op scalar true).result.map Column.rows
    = (filled.binary op c).result.map Column.rows
  /-- A zero scalar as a divisor is refused exactly if some row has a value. -/
  zero_right : k.support.allows (.binary op) → op.Divides k → Kind.Value.isZero scalar → ∀ e,
    (c.binaryScalar op scalar false).result = .error e ↔
      e = .divideByZero k ∧ ∃ i v, c.get i = .ok (some v)
  /-- A zero in a row is refused as a divisor exactly if it is the value of the row, not beneath a
  null. -/
  zero_left : k.support.allows (.binary op) → op.Divides k →
    ((c.binaryScalar op scalar true).result = .error (.divideByZero k) ↔
      ∃ i v, c.get i = .ok (some v) ∧ Kind.Value.isZero v)

lemma map_eq_error_iff {α β : Type} {f : α → β} {x : Except ColumnError α} {e : ColumnError} :
    x.map f = .error e ↔ x = .error e := by
  rcases x with e' | a <;> simp [Except.map]

/-- The rows of an operator with a scalar. -/
lemma map_rows_binaryScalar (h : c.Holds name o rows) (op : BinaryOp) (scalar : k.Value)
    (reverse : Bool) : (c.binaryScalar op scalar reverse).result.map Column.rows = (do
      check k (.binary op)
      op.onPairs (rows.map (BinaryOp.beside scalar reverse))) :=
  (refines_binaryScalar h op scalar reverse).result_map fun _ _ h => h.rows_eq

/-- The rows of an operator on two columns of one layout. -/
lemma map_rows_binary {name' : String} {xs ys : List (Cell k)} (h : c.Holds name o xs)
    (h' : filled.Holds name' o ys) (hlen : xs.length = ys.length) (op : BinaryOp) :
    (c.binary op filled).result.map Column.rows = (do
      check k (.binary op)
      op.onPairs (xs.zip ys)) := by
  have hrefines := refines_binary h h'.2 op
  rw [h.2.checkLayout_eq_ok h'.2 hlen] at hrefines
  exact hrefines.result_map fun _ _ h => h.rows_eq

/-- A reachable column with the options of another one, as many rows, and a scalar in each of
them. -/
structure Fills (scalar : k.Value) (c filled : Column k) : Prop where
  reachable : filled.Reachable
  options_eq : filled.options = c.options
  rows_eq : filled.rows = List.replicate c.len (some scalar)

lemma Fills.holds (h : Fills scalar c filled) (hc : c.Holds name o rows) :
    filled.Holds filled.name o (List.replicate rows.length (some scalar)) := by
  have hoptions : c.options = o := hc.2.options_eq
  have hholds := h.reachable.holds
  rwa [h.options_eq, h.rows_eq, hoptions, hc.len_eq] at hholds

/-- The scalar can be made a column of its own. -/
lemma exists_fills (scalar : k.Value) (c : Column k) (name : String) : ∃ filled,
    (ofRows name (List.replicate c.len (some scalar)) c.options).result = .ok filled ∧
      Fills scalar c filled := by
  obtain ⟨filled, hfilled, hholds⟩ :=
    refines_ofRows name (List.replicate c.len (some scalar)) c.options
  exact ⟨filled, hfilled, .ofRows _ _ _ hfilled, hholds.2.options_eq, hholds.rows_eq⟩

/-- The broadcast law: an operator with a scalar does what the operator does with a column that has
the scalar in every row, under the same options; and such a column can always be built. -/
theorem binaryScalar_broadcasts (op : BinaryOp) (scalar : k.Value) (hc : c.Reachable) :
    (∀ name, ∃ filled,
      (ofRows name (List.replicate c.len (some scalar)) c.options).result = .ok filled ∧
        Fills scalar c filled) ∧
    ∀ filled, Fills scalar c filled → Broadcasts op scalar c filled := by
  refine ⟨exists_fills scalar c, fun filled hfills => ?_⟩
  have h := hc.holds
  have h' := hfills.holds h
  constructor
  case right =>
    rw [map_rows_binaryScalar h, map_rows_binary h h' (by simp), map_beside]
    rfl
  case left =>
    rw [map_rows_binaryScalar h, map_rows_binary h' h (by simp), map_beside]
    rfl
  case zero_right =>
    intro hallows hdiv hzero e
    rw [← map_eq_error_iff, map_rows_binaryScalar h, check_eq_ok hallows]
    -- every row with a value will do
    have hget := h.2.exists_get_iff (P := fun _ => True)
    simp only [and_true] at hget
    exact (onPairs_beside_zero hallows hdiv hzero e).trans (and_congr_right fun _ => hget.symm)
  case zero_left =>
    intro hallows hdiv
    rw [← map_eq_error_iff, map_rows_binaryScalar h, check_eq_ok hallows]
    exact (onPairs_beside_reverse hallows hdiv).trans h.2.exists_get_iff.symm

/-- A null and a value, to be divided by zero and to divide it. -/
theorem binaryScalar_broadcasts_of_zero : ∃ c filled : Column .int32,
    (ofRows "a" [none, some 7] {}).result = .ok c ∧
      (ofRows "b" [some 0, some 0] {}).result = .ok filled ∧
        Broadcasts (.arithmetic .divide) 0 c filled := by
  refine ⟨_, _, rfl, rfl, (binaryScalar_broadcasts (.arithmetic .divide) 0
    (.ofRows "a" [none, some 7] {} rfl)).2 _ ⟨.ofRows "b" [some 0, some 0] {} rfl, ?_, ?_⟩⟩
  · rfl
  · rfl

end Column

end Columnar
