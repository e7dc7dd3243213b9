import Columnar.Proofs.Container.Pairs
import Columnar.Container.Broadcast
/-!
# Operators with a scalar

An operator with one scalar operand works on the rows with the scalar put beside each of them, and
a shift on the rows themselves. The loops behind them differ from those for two containers: the
check for a zero divisor looks at the scalar and the number of nulls, or at the rows alone, and
checked operators keep what is stored beneath nulls. Nothing of that shows in the rows.
-/

namespace Columnar

variable {k : Kind}

/-- A row with a scalar beside it, which comes first if reversed. -/
def BinaryOp.beside (scalar : k.Value) (reverse : Bool) (x : Cell k) : Cell k × Cell k :=
  if reverse then (some scalar, x) else (x, some scalar)

/-- A shift of one row. -/
def ShiftOp.onCell (op : ShiftOp) (amount : Int32) : Cell k → Except ColumnError (Cell k)
  | some v => (op.onValue v amount).map some
  | none => .ok none

namespace Container

variable {o : Options} {s : List (Slot k)} {c : Container k} {op : BinaryOp} {scalar : k.Value}
  {reverse : Bool}

/-- With one operand given, an operator is applied to some two operands. -/
lemma exists_withScalar (scalar : k.Value) (reverse : Bool) (a : k.Value) : ∃ x y : k.Value,
    ∀ {β : Type} (f : k.Value → k.Value → β), withScalar f scalar reverse a = f x y := by
  cases reverse with
  | true => exact ⟨scalar, a, fun f => rfl⟩
  | false => exact ⟨a, scalar, fun f => rfl⟩

lemma onCells_beside (x : Slot k) :
    op.onCells (BinaryOp.beside scalar reverse x.cell).1 (BinaryOp.beside scalar reverse x.cell).2
      = if x.2 then (withScalar op.onValues scalar reverse x.1).map some else .ok none := by
  rcases x with ⟨v, _ | _⟩ <;> cases reverse <;> rfl

lemma onCells_beside_eq_error_iff {x : Slot k} {e : ColumnError} :
    op.onCells (BinaryOp.beside scalar reverse x.cell).1
      (BinaryOp.beside scalar reverse x.cell).2 = .error e ↔
      x.2 = true ∧ withScalar op.onValues scalar reverse x.1 = .error e := by
  rw [onCells_beside]
  rcases x with ⟨v, _ | _⟩
  · simp
  · rcases withScalar op.onValues scalar reverse v with e' | w <;> simp [Except.map]

/-! ### The loops -/

/-- A function of values that the operator succeeds with on every row that has one. -/
lemma refines_mapInPlace (h : c.Stores o s) {f : k.Value → k.Value}
    (hf : ∀ x ∈ s, x.2 = true → withScalar op.onValues scalar reverse x.1 = .ok (f x.1)) :
    (mapInPlace f).Refines c (Holds o)
      (op.onPairs (s.map fun x => BinaryOp.beside scalar reverse x.cell)) := by
  obtain ⟨d, hd, hstores⟩ := yields_mapInPlace h f
  rw [BinaryOp.onPairs_eq_ok (g := fun x => Slot.cell (f x.1, x.2))]
  · exact refines_of_yields hd hstores (by rw [List.map_map]; rfl)
  · intro x hx
    rw [onCells_beside]
    rcases x with ⟨v, _ | _⟩
    · rfl
    · rw [if_pos rfl, hf _ hx rfl]
      rfl

/-- A checked function of values that misses a result where the operator overflows. -/
lemma refines_mapCheckedInPlace (h : c.Stores o s) (hallows : k.support.allows (.binary op))
    {f : k.Value → Option k.Value}
    (hf : ∀ x ∈ s, x.2 = true → withScalar op.onValues scalar reverse x.1
      = (f x.1).elim (.error (.overflow k op)) .ok) :
    (mapCheckedInPlace f (.overflow k op)).Refines c (Holds o)
      (op.onPairs (s.map fun x => BinaryOp.beside scalar reverse x.cell)) := by
  have hzero : ¬ ∃ x ∈ s, op.onCells (BinaryOp.beside scalar reverse x.cell).1
      (BinaryOp.beside scalar reverse x.cell).2 = .error (.divideByZero k) := by
    rintro ⟨x, hx, he⟩
    obtain ⟨hvalid, he⟩ := onCells_beside_eq_error_iff.1 he
    rw [hf x hx hvalid] at he
    rcases hfx : f x.1 with _ | w <;> rw [hfx] at he <;> cases he
  by_cases hany : s.any fun x => x.2 && (f x.1).isNone
  · rw [BinaryOp.onPairs_eq_overflow hallows hzero]
    · exact refuses_mapCheckedInPlace h _ hany
    · obtain ⟨x, hx, hlacks⟩ := List.any_eq_true.1 hany
      simp only [Bool.and_eq_true, Option.isNone_iff_eq_none] at hlacks
      exact ⟨x, hx, onCells_beside_eq_error_iff.2
        ⟨hlacks.1, by rw [hf x hx hlacks.1, hlacks.2]; rfl⟩⟩
  · have hsome : ∀ x ∈ s, x.2 = true → ∃ w, f x.1 = some w := by
      intro x hx hvalid
      rcases hfx : f x.1 with _ | w
      · exact absurd (List.any_eq_true.2 ⟨x, hx, by simp [hvalid, hfx]⟩) hany
      · exact ⟨w, rfl⟩
    obtain ⟨d, hd, hstores⟩ := yields_mapCheckedInPlace h (.overflow k op) hany
    rw [BinaryOp.onPairs_eq_ok
      (g := fun x => Slot.cell (if x.2 then (f x.1).getD x.1 else x.1, x.2))]
    · exact refines_of_yields hd hstores (by rw [List.map_map]; rfl)
    · intro x hx
      rw [onCells_beside]
      rcases x with ⟨v, _ | _⟩
      · rfl
      · obtain ⟨w, hw⟩ := hsome _ hx rfl
        rw [if_pos rfl, hf _ hx rfl]
        simp [hw, Slot.cell, Except.map]

/-- The check for zero divisors finds a row that the operator refuses for one. -/
lemma checkScalarDivisor_eq_ite (scalar : k.Value) (reverse : Bool) (h : c.Stores o s)
    (hop : ∀ a b : k.Value, op.onValues a b = .error (.divideByZero k) ↔ Kind.Value.isZero b) :
    c.checkScalarDivisor scalar reverse =
      if (s.map fun x => BinaryOp.beside scalar reverse x.cell).any (op.failsOn (.divideByZero k))
      then .error (.divideByZero k) else .ok () := by
  rw [checkScalarDivisor]
  congr 1
  simp only [BinaryOp.any_failsOn_iff, onCells_beside_eq_error_iff]
  cases reverse with
  | true =>
    have hany : c.chunks.any Chunk.hasZero = s.any fun x => Kind.Value.isZero x.1 && x.2 := by
      rw [← h.flatMap_slots, List.any_flatMap, ← Array.any_toList]
      rfl
    simp only [withScalar, if_true, hop, hany, List.any_eq_true, Bool.and_eq_true]
    refine propext (exists_congr fun x => and_congr_right fun _ => ?_)
    exact and_comm
  | false =>
    -- there are fewer nulls than rows if some row has a value
    have hlt : c.nullCount < c.len ↔ ∃ x ∈ s, x.2 = true := by
      rw [h.nullCount_eq, h.len_eq, List.countP_lt_length_iff]
      simp [Slot.isNull]
    simp only [withScalar, Bool.false_eq_true, if_false, hop, Bool.and_eq_true, decide_eq_true_eq,
      hlt]
    refine propext ⟨?_, ?_⟩
    · rintro ⟨hz, x, hx, hv⟩
      exact ⟨x, hx, hv, hz⟩
    · rintro ⟨x, hx, hv, hz⟩
      exact ⟨hz, x, hx, hv⟩

/-- Past the check, no row makes the operator refuse a zero divisor. -/
lemma refines_checkScalarDivisor_bind (h : c.Stores o s)
    (hop : ∀ a b : k.Value, op.onValues a b = .error (.divideByZero k) ↔ Kind.Value.isZero b)
    {m : Edit (Container k) Unit}
    (hm : (∀ x ∈ s, x.2 = true →
        withScalar op.onValues scalar reverse x.1 ≠ .error (.divideByZero k)) →
      m.Refines c (Holds o)
        (op.onPairs (s.map fun x => BinaryOp.beside scalar reverse x.cell))) :
    (Edit.checks (fun c => c.checkScalarDivisor scalar reverse) >>= fun _ => m).Refines c (Holds o)
      (op.onPairs (s.map fun x => BinaryOp.beside scalar reverse x.cell)) := by
  have hcheck := checkScalarDivisor_eq_ite scalar reverse h hop
  have hspec : op.onPairs (s.map fun x => BinaryOp.beside scalar reverse x.cell)
      = c.checkScalarDivisor scalar reverse >>= fun _ =>
        op.onPairs (s.map fun x => BinaryOp.beside scalar reverse x.cell) := by
    rw [hcheck]
    split_ifs with hany
    · rw [BinaryOp.onPairs, if_pos hany]
      rfl
    · rfl
  rw [hspec]
  refine Edit.Refines.checks_bind fun _ hok => hm fun x hx hvalid he => ?_
  rw [hcheck, if_pos] at hok
  · cases hok
  · exact BinaryOp.any_failsOn_iff.2 ⟨x, hx, onCells_beside_eq_error_iff.2 ⟨hvalid, he⟩⟩

/-! ### The operators -/

section

variable (op scalar reverse)

lemma refines_of_total (h : c.Stores o s) {f : k.Value → k.Value → k.Value}
    (hop : ∀ a b : k.Value, op.onValues a b = .ok (f a b)) :
    (mapInPlace (withScalar f scalar reverse)).Refines c (Holds o)
      (op.onPairs (s.map fun x => BinaryOp.beside scalar reverse x.cell)) := by
  refine refines_mapInPlace h fun x _ _ => ?_
  obtain ⟨a, b, hab⟩ := exists_withScalar scalar reverse x.1
  rw [hab, hab, hop]

lemma refines_of_division (h : c.Stores o s) {f : k.Value → k.Value → k.Value}
    (hop : ∀ a b : k.Value, op.onValues a b =
      if Kind.Value.isZero b then .error (.divideByZero k) else .ok (f a b)) :
    (Edit.checks (fun c => checkScalarDivisor c scalar reverse) >>= fun _ =>
      mapInPlace (withScalar f scalar reverse)).Refines c (Holds o)
      (op.onPairs (s.map fun x => BinaryOp.beside scalar reverse x.cell)) := by
  have hzero := onValues_eq_divideByZero_iff_isZero hop fun _ _ => nofun
  refine refines_checkScalarDivisor_bind h hzero fun hno => refines_mapInPlace h fun x hx hv => ?_
  have hne := hno x hx hv
  obtain ⟨a, b, hab⟩ := exists_withScalar scalar reverse x.1
  rw [hab] at hne
  rw [hab, hab, hop, if_neg (mt (hzero a b).2 hne)]

lemma refines_of_checked (h : c.Stores o s) (hallows : k.support.allows (.binary op))
    {f : k.Value → k.Value → Option k.Value}
    (hop : ∀ a b : k.Value, op.onValues a b = (f a b).elim (.error (.overflow k op)) .ok) :
    (mapCheckedInPlace (withScalar f scalar reverse) (.overflow k op)).Refines c (Holds o)
      (op.onPairs (s.map fun x => BinaryOp.beside scalar reverse x.cell)) := by
  refine refines_mapCheckedInPlace h hallows fun x _ _ => ?_
  obtain ⟨a, b, hab⟩ := exists_withScalar scalar reverse x.1
  rw [hab, hab, hop]

lemma refines_of_checked_division (h : c.Stores o s) (hallows : k.support.allows (.binary op))
    {f : k.Value → k.Value → Option k.Value}
    (hop : ∀ a b : k.Value, op.onValues a b =
      if Kind.Value.isZero b then .error (.divideByZero k)
      else (f a b).elim (.error (.overflow k op)) .ok) :
    (Edit.checks (fun c => checkScalarDivisor c scalar reverse) >>= fun _ =>
      mapCheckedInPlace (withScalar f scalar reverse) (.overflow k op)).Refines c (Holds o)
      (op.onPairs (s.map fun x => BinaryOp.beside scalar reverse x.cell)) := by
  have hzero := onValues_eq_divideByZero_iff_isZero hop fun a b =>
    elim_overflow_ne_divideByZero op (f a b)
  refine refines_checkScalarDivisor_bind h hzero fun hno =>
    refines_mapCheckedInPlace h hallows fun x hx hv => ?_
  have hne := hno x hx hv
  obtain ⟨a, b, hab⟩ := exists_withScalar scalar reverse x.1
  rw [hab] at hne
  rw [hab, hab, hop, if_neg (mt (hzero a b).2 hne)]

end

/-- A legal operator with a scalar is the operator on pairs. -/
lemma refines_binaryScalar_of_allows (h : c.Stores o s)
    (hallows : k.support.allows (.binary op)) :
    (binaryScalar op scalar reverse).Refines c (Holds o)
      (op.onPairs (s.map fun x => BinaryOp.beside scalar reverse x.cell)) := by
  rcases carries_of_allows hallows with ⟨f, hop, -, hscalar⟩ | ⟨f, hop, -, hscalar⟩ |
    ⟨f, hop, -, hscalar⟩ | ⟨f, hop, -, hscalar⟩
  case total =>
    rw [hscalar]
    exact refines_of_total op scalar reverse h hop
  case division =>
    rw [hscalar]
    exact refines_of_division op scalar reverse h hop
  case checked =>
    rw [hscalar]
    exact refines_of_checked op scalar reverse h hallows hop
  case checkedDivision =>
    rw [hscalar]
    exact refines_of_checked_division op scalar reverse h hallows hop

lemma refuses_binaryScalar_of_not_allows (hallows : ¬ k.support.allows (.binary op))
    (c : Container k) : (binaryScalar op scalar reverse).Refuses c
      (.unsupportedOperation k (.binary op)) := by
  rw [← k.support_arithmetic] at hallows
  unfold binaryScalar
  rcases harith : k.arithmetic with ops | ops | ops | ops <;> rcases op with op | op
  case rounding.bitwise | checked.bitwise | logical.arithmetic => exact Edit.refuses_fail _ _
  all_goals
    rw [harith] at hallows
    exact absurd rfl hallows

variable {rows : List (Cell k)}

/-- An operator with a scalar: legality first, then the rows with the scalar beside them. -/
theorem refines_binaryScalar (h : c.Holds o rows) (op : BinaryOp) (scalar : k.Value)
    (reverse : Bool) :
    (binaryScalar op scalar reverse).Refines c (Holds o) (do
      k.arithmetic.support.check k (.binary op)
      op.onPairs (rows.map (BinaryOp.beside scalar reverse))) := by
  obtain ⟨s, h, rfl⟩ := h
  rw [List.map_map, Support.check, k.support_arithmetic]
  split_ifs with hallows
  · exact refines_binaryScalar_of_allows h hallows
  · exact refuses_binaryScalar_of_not_allows hallows c

/-- A shift: legality first, then the rows. -/
theorem refines_shift (h : c.Holds o rows) (op : ShiftOp) (amount : Int32) :
    (shift (k := k) op amount).Refines c (Holds o) (do
      k.arithmetic.support.check k (.shift op)
      rows.mapM (op.onCell amount)) := by
  obtain ⟨s, h, rfl⟩ := h
  rw [List.mapM_map]
  rcases harith : k.arithmetic with ops | ops | ops | ops
  case wrapping =>
    obtain ⟨d, hd, hstores⟩ := yields_mapInPlace h fun a => ops.shift op a (ops.places amount)
    have hspec : s.mapM (op.onCell amount ∘ Slot.cell)
        = .ok (s.map fun x => Slot.cell (ops.shift op x.1 (ops.places amount), x.2)) := by
      refine mapM_eq_ok fun x _ => ?_
      rcases x with ⟨v, _ | _⟩
      · rfl
      · simp [ShiftOp.onCell, Slot.cell, ShiftOp.onValue, harith, Except.map]
    show Edit.Refines _ c (Holds o) (s.mapM (op.onCell amount ∘ Slot.cell))
    rw [hspec]
    simp only [shift, harith]
    exact refines_of_yields hd hstores (by rw [List.map_map]; rfl)
  all_goals
    simp only [shift, harith]
    exact Edit.refuses_fail _ c

/-! ### Failures change nothing -/

/-- An operator with a scalar changes nothing when it fails, and otherwise keeps the container
sound. -/
theorem settles_binaryScalar (h : c.Stores o s) (op : BinaryOp) (scalar : k.Value)
    (reverse : Bool) :
    (binaryScalar op scalar reverse).Settles (fun d => ∃ u, d.Stores o u) c :=
  settles_of_refines (refines_binaryScalar h.holds op scalar reverse)

/-- A shift changes nothing when it fails, and otherwise keeps the container sound. -/
theorem settles_shift (h : c.Stores o s) (op : ShiftOp) (amount : Int32) :
    (shift (k := k) op amount).Settles (fun d => ∃ u, d.Stores o u) c :=
  settles_of_refines (refines_shift h.holds op amount)

end Container

end Columnar
