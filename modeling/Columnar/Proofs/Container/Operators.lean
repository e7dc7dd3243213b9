import Columnar.Proofs.Container.Pairing
import Columnar.Container.Broadcast
/-!
# Operators on slots

The loops behind the operators: combining two containers or running over one, with a function that
always has a result or with one that may not. A checked loop either finds every result it needs,
or changes nothing.
-/

namespace Columnar

variable {k : Kind}

/-- A loop that may miss a result either misses one or is a map. -/
lemma mapM_eq_ite {α β : Type} {f : α → Option β} {g : α → β} {l : List α}
    (hg : ∀ a ∈ l, ∀ b, f a = some b → g a = b) :
    l.mapM f = if l.any fun a => (f a).isNone then none else some (l.map g) := by
  induction l with
  | nil => rfl
  | cons a l ih =>
    have hrest := ih fun a ha => hg a (List.mem_cons_of_mem _ ha)
    rcases ha : f a with _ | b
    · simp [List.mapM_cons, ha]
    · have hgab := hg a (by simp) b ha
      by_cases hany : (l.any fun a => (f a).isNone) = true
      · simp [List.mapM_cons, ha, hrest, hany]
      · simp [List.mapM_cons, ha, hrest, hany, hgab]

namespace Slot

/-- Two slots under an operator that always has a result. -/
def zip (f : k.Value → k.Value → k.Value) (x y : Slot k) : Slot k := (f x.1 y.1, x.2 && y.2)

/-- Whether both slots hold a value but the operator has no result for them. -/
def lacks (f : k.Value → k.Value → Option k.Value) (x y : Slot k) : Bool :=
  x.2 && y.2 && (f x.1 y.1).isNone

/-- Two slots under a checked operator: zero is stored beneath a null. -/
def zipChecked (f : k.Value → k.Value → Option k.Value) (x y : Slot k) : Slot k :=
  (if x.2 && y.2 then (f x.1 y.1).getD k.zero else k.zero, x.2 && y.2)

end Slot

namespace Chunk

variable {cap : ℕ}

lemma zipChecked?_eq_ite (f : k.Value → k.Value → Option k.Value) (left right : Chunk k) :
    left.zipChecked? f right =
      if (left.slots.zip right.slots).any fun p => Slot.lacks f p.1 p.2 then none
      else some (List.zipWith (fun x y => (Slot.zipChecked f x y).1) left.slots
        right.slots).toArray := by
  rw [zipChecked?, mapM_eq_ite (g := fun p => (Slot.zipChecked f p.1 p.2).1)]
  · have hlacks : ∀ p : Slot k × Slot k,
        (if p.1.2 && p.2.2 then f p.1.1 p.2.1 else some k.zero).isNone
          = Slot.lacks f p.1 p.2 := by
      intro p
      by_cases hp : (p.1.2 && p.2.2) = true
      · simp [Slot.lacks, hp]
      · simp [Slot.lacks, hp]
    simp only [hlacks]
    split_ifs
    · rfl
    · rw [List.map_zip_eq_zipWith]
      rfl
  · rintro ⟨x, y⟩ _ b hb
    simp only at hb
    rw [Slot.zipChecked]
    by_cases hp : (x.2 && y.2) = true
    · rw [if_pos hp] at hb ⊢
      rw [hb, Option.getD_some]
    · rw [if_neg hp] at hb ⊢
      exact Option.some.inj hb

lemma mapChecked?_eq_ite (f : k.Value → Option k.Value) (c : Chunk k) :
    c.mapChecked? f = if c.slots.any fun x => x.2 && (f x.1).isNone then none
      else some (c.slots.map fun x => if x.2 then (f x.1).getD x.1 else x.1).toArray := by
  rw [mapChecked?, mapM_eq_ite (g := fun x => if x.2 then (f x.1).getD x.1 else x.1)]
  · have hlacks : ∀ x : Slot k, (if x.2 then f x.1 else some x.1).isNone
        = (x.2 && (f x.1).isNone) := by
      rintro ⟨v, _ | _⟩ <;> rfl
    simp only [hlacks]
    split_ifs
    · rfl
    · rfl
  · rintro ⟨v, _ | _⟩ _ b hb
    · simpa using hb
    · simp only [if_true] at hb
      simp [hb]

end Chunk

namespace Container

variable {o o' : Options} {s t : List (Slot k)} {left right c : Container k}

/-! ### Two containers -/

/-- Combining two containers value by value combines their slots. -/
lemma yields_zipInPlace (hl : left.Stores o s) (hr : right.Stores o' t)
    (heq : left.sizes = right.sizes) (f : k.Value → k.Value → k.Value) :
    ∃ d, (zipInPlace f right).Yields left () d ∧ d.Stores o (List.zipWith (Slot.zip f) s t) := by
  refine ⟨_, Edit.yields_updates _ _, Stores.recountNulls hl.options_eq ?_ ?_⟩
  · rw [Array.toList_zipWith]
    exact hl.packed.zipWith hr.packed heq fun c hc d hd hlen =>
      Chunk.slots_zipWith (hl.packed.wellFormed c hc) (hr.packed.wellFormed d hd) hlen f
  · rw [List.length_zipWith, ← hl.length_eq hr heq, min_self]
    exact hl.len_eq

/-- A zero divisor is found in the pairs of slots. -/
lemma checkDivisors_eq_ite (hl : left.Stores o s) (hr : right.Stores o' t)
    (heq : left.sizes = right.sizes) : checkDivisors left right =
      if (s.zip t).any fun p => Kind.Value.isZero p.2.1 && p.1.2 && p.2.2
      then .error (.divideByZero k) else .ok () := by
  rw [← hl.any_chunkPairs hr heq]
  rfl

/-- A missing result is found in the pairs of slots. -/
lemma mapM_zipChecked?_eq_ite (hl : left.Stores o s) (hr : right.Stores o' t)
    (heq : left.sizes = right.sizes) (f : k.Value → k.Value → Option k.Value) :
    ((chunkPairs left right).mapM fun (l, r) => l.zipChecked? f r) =
      if (s.zip t).any fun p => Slot.lacks f p.1 p.2 then none
      else some ((chunkPairs left right).map fun p =>
        (List.zipWith (fun x y => (Slot.zipChecked f x y).1) p.1.slots p.2.slots).toArray) := by
  rw [← hl.any_chunkPairs hr heq, mapM_eq_ite (g := fun p =>
    (List.zipWith (fun x y => (Slot.zipChecked f x y).1) p.1.slots p.2.slots).toArray)]
  · have hnone : ∀ p : Chunk k × Chunk k, (p.1.zipChecked? f p.2).isNone
        = (p.1.slots.zip p.2.slots).any fun p => Slot.lacks f p.1 p.2 := by
      intro p
      rw [Chunk.zipChecked?_eq_ite]
      split_ifs with hany
      · simpa using hany
      · simpa using hany
    simp only [hnone]
  · rintro ⟨c, d⟩ _ b hb
    simp only [Chunk.zipChecked?_eq_ite] at hb
    split_ifs at hb
    exact Option.some.inj hb

/-- A checked operator that has all results combines the slots. -/
lemma yields_zipCheckedInPlace (hl : left.Stores o s) (hr : right.Stores o' t)
    (heq : left.sizes = right.sizes) {f : k.Value → k.Value → Option k.Value}
    (missing : ColumnError) (hany : ¬ (s.zip t).any fun p => Slot.lacks f p.1 p.2) :
    ∃ d, (zipCheckedInPlace f right missing).Yields left () d ∧
      d.Stores o (List.zipWith (Slot.zipChecked f) s t) := by
  have hmapM := mapM_zipChecked?_eq_ite hl hr heq f
  rw [if_neg hany] at hmapM
  refine ⟨_, (Edit.yields_checks (by rw [hmapM])).bind (Edit.yields_updates _ _), ?_⟩
  refine Stores.recountNulls hl.options_eq ?_ ?_
  · simp only [List.zipWith_map_right, List.zipWith_self]
    rw [chunkPairs, List.map_zip_eq_zipWith]
    exact hl.packed.zipWith hr.packed heq fun c hc d hd hlen =>
      Chunk.slots_zip (hl.packed.wellFormed c hc) (hr.packed.wellFormed d hd) hlen rfl
  · rw [List.length_zipWith, ← hl.length_eq hr heq, min_self]
    exact hl.len_eq

/-- A checked operator that misses a result is refused. -/
lemma refuses_zipCheckedInPlace (hl : left.Stores o s) (hr : right.Stores o' t)
    (heq : left.sizes = right.sizes) {f : k.Value → k.Value → Option k.Value}
    (missing : ColumnError) (hany : (s.zip t).any fun p => Slot.lacks f p.1 p.2) :
    (zipCheckedInPlace f right missing).Refuses left missing := by
  have hmapM := mapM_zipChecked?_eq_ite hl hr heq f
  rw [if_pos hany] at hmapM
  exact (Edit.refuses_checks (by rw [hmapM])).bind _

/-! ### A container and a scalar -/

lemma yields_mapInPlace (h : c.Stores o s) (f : k.Value → k.Value) :
    ∃ d, (mapInPlace f).Yields c () d ∧ d.Stores o (s.map fun x => (f x.1, x.2)) :=
  ⟨_, Edit.yields_updates _ _, h.map (fun chunk hc =>
    Chunk.slots_withValues hc (Chunk.toList_map_values chunk f)) fun _ => rfl⟩

/-- A missing result is found in the slots. -/
lemma mapM_mapChecked?_eq_ite (h : c.Stores o s) (f : k.Value → Option k.Value) :
    c.chunks.toList.mapM (Chunk.mapChecked? f) =
      if s.any fun x => x.2 && (f x.1).isNone then none
      else some (c.chunks.toList.map fun chunk =>
        (chunk.slots.map fun x => if x.2 then (f x.1).getD x.1 else x.1).toArray) := by
  rw [mapM_eq_ite (g := fun chunk =>
    (chunk.slots.map fun x => if x.2 then (f x.1).getD x.1 else x.1).toArray)]
  · have hnone : ∀ chunk : Chunk k, (Chunk.mapChecked? f chunk).isNone
        = chunk.slots.any fun x => x.2 && (f x.1).isNone := by
      intro chunk
      rw [Chunk.mapChecked?_eq_ite]
      split_ifs with hany
      · simpa using hany
      · simpa using hany
    simp only [hnone]
    rw [← List.any_flatMap, h.flatMap_slots]
  · intro chunk _ b hb
    rw [Chunk.mapChecked?_eq_ite] at hb
    split_ifs at hb
    exact Option.some.inj hb

/-- A checked function that has all results is a function of the slots. -/
lemma yields_mapCheckedInPlace (h : c.Stores o s) {f : k.Value → Option k.Value}
    (missing : ColumnError) (hany : ¬ s.any fun x => x.2 && (f x.1).isNone) :
    ∃ d, (mapCheckedInPlace f missing).Yields c () d ∧
      d.Stores o (s.map fun x => (if x.2 then (f x.1).getD x.1 else x.1, x.2)) := by
  have hmapM := mapM_mapChecked?_eq_ite h f
  rw [if_neg hany] at hmapM
  refine ⟨_, (Edit.yields_checks (by rw [hmapM])).bind (Edit.yields_updates _ _), ?_⟩
  simp only [List.zipWith_map_right, List.zipWith_self]
  have hmap := h.map (f := fun chunk : Chunk k => chunk.withValues
      (chunk.slots.map fun x => if x.2 then (f x.1).getD x.1 else x.1).toArray)
    (g := fun x => (if x.2 then (f x.1).getD x.1 else x.1, x.2))
    (fun chunk hc => Chunk.slots_withValues hc rfl) fun _ => rfl
  have hchunks : c.chunks.toList.toArray = c.chunks := Array.toArray_toList
  rwa [← hchunks, List.map_toArray] at hmap

/-- A checked function that misses a result is refused. -/
lemma refuses_mapCheckedInPlace (h : c.Stores o s) {f : k.Value → Option k.Value}
    (missing : ColumnError) (hany : s.any fun x => x.2 && (f x.1).isNone) :
    (mapCheckedInPlace f missing).Refuses c missing := by
  have hmapM := mapM_mapChecked?_eq_ite h f
  rw [if_pos hany] at hmapM
  exact (Edit.refuses_checks (by rw [hmapM])).bind _

/-! ### Which loops carry out an operator -/

/-- How an operator that is legal for a kind is carried out: on values, on two containers and with a
scalar it is the same function, which has a result for all values or is checked for one, and which
is preceded by a check for zero divisors or not. -/
inductive Carries (k : Kind) (op : BinaryOp) : Prop
  | total (f : k.Value → k.Value → k.Value)
    (onValues_eq : ∀ a b : k.Value, op.onValues a b = .ok (f a b))
    (binary_eq : ∀ right : Container k, binary op right = (do
      Edit.checks fun left => checkLayout left right
      zipInPlace f right))
    (binaryScalar_eq : ∀ (scalar : k.Value) reverse,
      binaryScalar op scalar reverse = mapInPlace (withScalar f scalar reverse))
  | division (f : k.Value → k.Value → k.Value)
    (onValues_eq : ∀ a b : k.Value, op.onValues a b =
      if Kind.Value.isZero b then .error (.divideByZero k) else .ok (f a b))
    (binary_eq : ∀ right : Container k, binary op right = (do
      Edit.checks fun left => checkLayout left right
      Edit.checks fun left => checkDivisors left right
      zipInPlace f right))
    (binaryScalar_eq : ∀ (scalar : k.Value) reverse, binaryScalar op scalar reverse = (do
      Edit.checks fun c => checkScalarDivisor c scalar reverse
      mapInPlace (withScalar f scalar reverse)))
  | checked (f : k.Value → k.Value → Option k.Value)
    (onValues_eq : ∀ a b : k.Value, op.onValues a b = (f a b).elim (.error (.overflow k op)) .ok)
    (binary_eq : ∀ right : Container k, binary op right = (do
      Edit.checks fun left => checkLayout left right
      zipCheckedInPlace f right (.overflow k op)))
    (binaryScalar_eq : ∀ (scalar : k.Value) reverse, binaryScalar op scalar reverse =
      mapCheckedInPlace (withScalar f scalar reverse) (.overflow k op))
  | checkedDivision (f : k.Value → k.Value → Option k.Value)
    (onValues_eq : ∀ a b : k.Value, op.onValues a b =
      if Kind.Value.isZero b then .error (.divideByZero k)
      else (f a b).elim (.error (.overflow k op)) .ok)
    (binary_eq : ∀ right : Container k, binary op right = (do
      Edit.checks fun left => checkLayout left right
      Edit.checks fun left => checkDivisors left right
      zipCheckedInPlace f right (.overflow k op)))
    (binaryScalar_eq : ∀ (scalar : k.Value) reverse, binaryScalar op scalar reverse = (do
      Edit.checks fun c => checkScalarDivisor c scalar reverse
      mapCheckedInPlace (withScalar f scalar reverse) (.overflow k op)))

/-- Every legal operator is carried out in one of these ways. -/
theorem carries_of_allows {op : BinaryOp} (hallows : k.support.allows (.binary op)) :
    Carries k op := by
  rw [← k.support_arithmetic] at hallows
  rcases harith : k.arithmetic with ops | ops | ops | ops <;> rcases op with op | op
  case wrapping.arithmetic =>
    by_cases hdiv : op.isDivision
    · refine .division (ops.guarded op) (fun a b => ?_) (fun right => ?_) fun scalar reverse => ?_
      · simp only [BinaryOp.onValues, harith, hdiv, Bool.true_and, WrappingOps.guarded]
        split_ifs <;> rfl
      · simp only [binary, harith, hdiv, if_true]
      · simp only [binaryScalar, harith, hdiv, if_true]
    · refine .total (ops.guarded op) (fun a b => ?_) (fun right => ?_) fun scalar reverse => ?_
      · simp only [BinaryOp.onValues, harith, hdiv, WrappingOps.guarded]
        rfl
      · simp only [binary, harith, hdiv, Bool.false_eq_true, if_false]
      · simp only [binaryScalar, harith, hdiv, Bool.false_eq_true, if_false]
  case checked.arithmetic =>
    by_cases hdiv : op.isDivision
    · refine .checkedDivision (ops op) (fun a b => ?_) (fun right => ?_) fun scalar reverse => ?_
      · simp only [BinaryOp.onValues, harith, hdiv, Bool.true_and]
        cases ops op a b <;> rfl
      · simp only [binary, harith, hdiv, if_true]
      · simp only [binaryScalar, harith, hdiv, if_true]
    · refine .checked (ops op) (fun a b => ?_) (fun right => ?_) fun scalar reverse => ?_
      · simp only [BinaryOp.onValues, harith, hdiv]
        cases ops op a b <;> rfl
      · simp only [binary, harith, hdiv, Bool.false_eq_true, if_false]
      · simp only [binaryScalar, harith, hdiv, Bool.false_eq_true, if_false]
  case wrapping.bitwise =>
    refine .total (ops.bitwise op) (fun a b => ?_) (fun right => ?_) fun scalar reverse => ?_
    · simp only [BinaryOp.onValues, harith]
    · simp only [binary, harith]
    · simp only [binaryScalar, harith]
  case rounding.arithmetic | logical.bitwise =>
    refine .total (ops op) (fun a b => ?_) (fun right => ?_) fun scalar reverse => ?_
    · simp only [BinaryOp.onValues, harith]
    · simp only [binary, harith]
    · simp only [binaryScalar, harith]
  -- the arithmetics without this operator do not allow it
  all_goals
    rw [harith] at hallows
    exact absurd hallows Bool.false_ne_true

/-- Where a zero divisor is refused before anything else, nothing else is refused for one. -/
lemma onValues_eq_divideByZero_iff_isZero {op : BinaryOp}
    {rest : k.Value → k.Value → Except ColumnError k.Value}
    (hop : ∀ a b : k.Value, op.onValues a b =
      if Kind.Value.isZero b then .error (.divideByZero k) else rest a b)
    (hrest : ∀ a b, rest a b ≠ .error (.divideByZero k)) (a b : k.Value) :
    op.onValues a b = .error (.divideByZero k) ↔ Kind.Value.isZero b := by
  rw [hop]
  split_ifs with hb
  · simp [hb]
  · simp [hb, hrest a b]

/-- A checked function misses results for an overflow only. -/
lemma elim_overflow_ne_divideByZero (op : BinaryOp) (result : Option k.Value) :
    result.elim (.error (.overflow k op)) .ok
      ≠ (.error (.divideByZero k) : Except ColumnError k.Value) := by
  rcases result with _ | c
  · rintro ⟨⟩
  · rintro ⟨⟩

end Container

end Columnar
