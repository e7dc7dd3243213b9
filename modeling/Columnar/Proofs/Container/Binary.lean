import Columnar.Proofs.Container.Operators
/-!
# Binary operators and the operators on values

A binary operator on two containers of equal layout is judged by the operator on single values,
over the pairs of slots that both hold a value. It refuses a zero divisor in any of them, then an
overflow in any of them, and otherwise stores the value of each pair.
-/

namespace Columnar.Container

variable {k : Kind} {o o' : Options} {s t : List (Slot k)} {left right : Container k}

/-- Some pair of slots that both hold a value makes the operator on values end in `e`. -/
def FailsWith (op : BinaryOp) (e : ColumnError) (s t : List (Slot k)) : Prop :=
  ∃ p ∈ s.zip t, p.1.2 = true ∧ p.2.2 = true ∧ op.onValues p.1.1 p.2.1 = .error e

/-- The pairs of slots that both hold a value are the rows that hold one in both containers. -/
lemma failsWith_iff (hl : left.Stores o s) (hr : right.Stores o' t) (op : BinaryOp)
    (e : ColumnError) : FailsWith op e s t ↔ ∃ i a b, left.get i = .ok (some a) ∧
      right.get i = .ok (some b) ∧ op.onValues a b = .error e := by
  constructor
  · rintro ⟨p, hp, hx, hy, he⟩
    obtain ⟨i, hi, rfl⟩ := List.mem_iff_getElem.1 hp
    rw [List.length_zip, lt_min_iff] at hi
    simp only [List.getElem_zip] at hx hy he
    refine ⟨i, _, _, hl.get_eq_some_iff.2 ⟨hi.1, ?_⟩, hr.get_eq_some_iff.2 ⟨hi.2, ?_⟩, he⟩
    · rw [← hx]
    · rw [← hy]
  · rintro ⟨i, a, b, ha, hb, he⟩
    obtain ⟨hi, hx⟩ := hl.get_eq_some_iff.1 ha
    obtain ⟨hi', hy⟩ := hr.get_eq_some_iff.1 hb
    refine ⟨(s[i], t[i]), List.mem_iff_getElem.2 ⟨i, by simp [hi, hi'], by simp⟩, ?_⟩
    simp [hx, hy, he]

/-- A function of slots gives what the operator gives on values, and a null otherwise. -/
def Agrees (op : BinaryOp) (g : Slot k → Slot k → Slot k) (s t : List (Slot k)) : Prop :=
  ∀ p ∈ s.zip t, (g p.1 p.2).2 = (p.1.2 && p.2.2) ∧
    (p.1.2 = true → p.2.2 = true → op.onValues p.1.1 p.2.1 = .ok (g p.1 p.2).1)

/-- How a binary operator ends on two containers of equal layout. -/
structure BinarySpec (op : BinaryOp) (o : Options) (s t : List (Slot k)) (left : Container k)
    (m : Edit (Container k) Unit) : Prop where
  divideByZero : FailsWith op (.divideByZero k) s t → m.Refuses left (.divideByZero k)
  overflow : ¬ FailsWith op (.divideByZero k) s t → FailsWith op (.overflow k op) s t →
    m.Refuses left (.overflow k op)
  succeeds : ¬ FailsWith op (.divideByZero k) s t → ¬ FailsWith op (.overflow k op) s t →
    ∃ d g, m.Yields left () d ∧ d.Stores o (List.zipWith g s t) ∧ Agrees op g s t

lemma yields_checkLayout (hl : left.Stores o s) (hr : right.Stores o' t)
    (heq : left.sizes = right.sizes) :
    (Edit.checks fun left => checkLayout left right).Yields left () left :=
  Edit.yields_checks (f := fun left : Container k => checkLayout left right)
    (hl.checkLayout_eq_ok hr heq)

/-- An operator without a zero divisor and without overflow. -/
lemma binarySpec_of_total (hl : left.Stores o s) (hr : right.Stores o' t)
    (heq : left.sizes = right.sizes) (op : BinaryOp) {f : k.Value → k.Value → k.Value}
    (hop : ∀ a b : k.Value, op.onValues a b = .ok (f a b)) :
    BinarySpec op o s t left (do
      Edit.checks fun left => checkLayout left right
      zipInPlace f right) := by
  have hnever : ∀ e, ¬ FailsWith op e s t := by
    rintro e ⟨p, -, -, -, he⟩
    rw [hop] at he
    cases he
  constructor
  case divideByZero => exact fun h => absurd h (hnever _)
  case overflow => exact fun _ h => absurd h (hnever _)
  case succeeds =>
    intro _ _
    obtain ⟨d, hd, hstores⟩ := yields_zipInPlace hl hr heq f
    have hlayout := yields_checkLayout hl hr heq
    exact ⟨d, _, hlayout.bind hd, hstores, fun p _ => ⟨rfl, fun _ _ => hop _ _⟩⟩

/-- The check for zero divisors finds the pairs on which the operator on values fails for one. -/
lemma checkDivisors_spec (hl : left.Stores o s) (hr : right.Stores o' t)
    (heq : left.sizes = right.sizes) {op : BinaryOp}
    (hop : ∀ a b : k.Value, op.onValues a b = .error (.divideByZero k) ↔ Kind.Value.isZero b) :
    (FailsWith op (.divideByZero k) s t →
        (Edit.checks fun left => checkDivisors left right).Refuses left (.divideByZero k)) ∧
      (¬ FailsWith op (.divideByZero k) s t →
        (Edit.checks fun left => checkDivisors left right).Yields left () left) := by
  have hdivisors := checkDivisors_eq_ite hl hr heq
  constructor
  · rintro ⟨p, hp, hx, hy, he⟩
    rw [if_pos (List.any_eq_true.2 ⟨p, hp, by simp [hx, hy, (hop _ _).1 he]⟩)] at hdivisors
    exact Edit.refuses_checks (f := fun left : Container k => checkDivisors left right) hdivisors
  · intro hno
    rw [if_neg] at hdivisors
    · exact Edit.yields_checks (f := fun left : Container k => checkDivisors left right) hdivisors
    · rw [List.any_eq_true]
      rintro ⟨p, hp, hzero⟩
      simp only [Bool.and_eq_true] at hzero
      exact hno ⟨p, hp, hzero.1.2, hzero.2, (hop _ _).2 hzero.1.1⟩

/-- An operator that refuses zero divisors before anything is changed, and without overflow. -/
lemma binarySpec_of_division (hl : left.Stores o s) (hr : right.Stores o' t)
    (heq : left.sizes = right.sizes) (op : BinaryOp) {f : k.Value → k.Value → k.Value}
    (hop : ∀ a b : k.Value, op.onValues a b =
      if Kind.Value.isZero b then .error (.divideByZero k) else .ok (f a b)) :
    BinarySpec op o s t left (do
      Edit.checks fun left => checkLayout left right
      Edit.checks fun left => checkDivisors left right
      zipInPlace f right) := by
  have hzero := onValues_eq_divideByZero_iff_isZero hop fun _ _ => nofun
  have hnever : ¬ FailsWith op (.overflow k op) s t := by
    rintro ⟨p, -, -, -, he⟩
    rw [hop] at he
    split_ifs at he
    cases he
  obtain ⟨hfail, hpass⟩ := checkDivisors_spec hl hr heq hzero
  have hlayout := yields_checkLayout hl hr heq
  constructor
  case divideByZero => exact fun h => hlayout.refuses ((hfail h).bind _)
  case overflow => exact fun _ h => absurd h hnever
  case succeeds =>
    intro hno _
    obtain ⟨d, hd, hstores⟩ := yields_zipInPlace hl hr heq f
    refine ⟨d, _, hlayout.bind ((hpass hno).bind hd), hstores, fun p hp => ⟨rfl, fun hx hy => ?_⟩⟩
    -- a pair of two values has no zero divisor, or it would have been found
    rw [hop, if_neg]
    · rfl
    · exact fun hb => hno ⟨p, hp, hx, hy, (hzero _ _).2 hb⟩

/-- A checked operator misses a result where the operator on values overflows. -/
lemma zipCheckedInPlace_spec (hl : left.Stores o s) (hr : right.Stores o' t)
    (heq : left.sizes = right.sizes) {op : BinaryOp} {f : k.Value → k.Value → Option k.Value}
    (hop : ∀ p ∈ s.zip t, p.1.2 = true → p.2.2 = true → op.onValues p.1.1 p.2.1
      = (f p.1.1 p.2.1).elim (.error (.overflow k op)) .ok) :
    (FailsWith op (.overflow k op) s t →
        (zipCheckedInPlace f right (.overflow k op)).Refuses left (.overflow k op)) ∧
      (¬ FailsWith op (.overflow k op) s t →
        ∃ d, (zipCheckedInPlace f right (.overflow k op)).Yields left () d ∧
          d.Stores o (List.zipWith (Slot.zipChecked f) s t) ∧
          Agrees op (Slot.zipChecked f) s t) := by
  have hlacks : ∀ p ∈ s.zip t, p.1.2 = true → p.2.2 = true →
      op.onValues p.1.1 p.2.1 = .error (.overflow k op) → f p.1.1 p.2.1 = none := by
    intro p hp hx hy he
    rw [hop p hp hx hy] at he
    rcases hf : f p.1.1 p.2.1 with _ | c
    · rfl
    · rw [hf] at he
      cases he
  constructor
  · rintro ⟨p, hp, hx, hy, he⟩
    refine refuses_zipCheckedInPlace hl hr heq _ (List.any_eq_true.2 ⟨p, hp, ?_⟩)
    simp [Slot.lacks, hx, hy, hlacks p hp hx hy he]
  · intro hno
    have hsome : ∀ p ∈ s.zip t, p.1.2 = true → p.2.2 = true → ∃ c, f p.1.1 p.2.1 = some c := by
      intro p hp hx hy
      rcases hf : f p.1.1 p.2.1 with _ | c
      · exact absurd ⟨p, hp, hx, hy, by rw [hop p hp hx hy, hf]; rfl⟩ hno
      · exact ⟨c, rfl⟩
    obtain ⟨d, hd, hstores⟩ := yields_zipCheckedInPlace hl hr heq (.overflow k op) (f := f) (by
      rw [List.any_eq_true]
      rintro ⟨p, hp, hlack⟩
      simp only [Slot.lacks, Bool.and_eq_true] at hlack
      obtain ⟨c, hc⟩ := hsome p hp hlack.1.1 hlack.1.2
      simp [hc] at hlack)
    refine ⟨d, hd, hstores, fun p hp => ⟨rfl, fun hx hy => ?_⟩⟩
    obtain ⟨c, hc⟩ := hsome p hp hx hy
    simp [hop p hp hx hy, Slot.zipChecked, hx, hy, hc]

/-- A checked operator that knows no zero divisors. -/
lemma binarySpec_of_checked (hl : left.Stores o s) (hr : right.Stores o' t)
    (heq : left.sizes = right.sizes) (op : BinaryOp) {f : k.Value → k.Value → Option k.Value}
    (hop : ∀ a b : k.Value, op.onValues a b = (f a b).elim (.error (.overflow k op)) .ok) :
    BinarySpec op o s t left (do
      Edit.checks fun left => checkLayout left right
      zipCheckedInPlace f right (.overflow k op)) := by
  have hnever : ¬ FailsWith op (.divideByZero k) s t := by
    rintro ⟨p, -, -, -, he⟩
    rw [hop] at he
    rcases hf : f p.1.1 p.2.1 with _ | c
    · rw [hf] at he
      cases he
    · rw [hf] at he
      cases he
  have hlayout := yields_checkLayout hl hr heq
  obtain ⟨hfail, hpass⟩ := zipCheckedInPlace_spec hl hr heq fun p _ _ _ => hop p.1.1 p.2.1
  constructor
  case divideByZero => exact fun h => absurd h hnever
  case overflow => exact fun _ h => hlayout.refuses (hfail h)
  case succeeds =>
    intro _ hno
    obtain ⟨d, hd, hstores, hagrees⟩ := hpass hno
    exact ⟨d, _, hlayout.bind hd, hstores, hagrees⟩

/-- A checked operator that refuses zero divisors first. -/
lemma binarySpec_of_checked_division (hl : left.Stores o s) (hr : right.Stores o' t)
    (heq : left.sizes = right.sizes) (op : BinaryOp) {f : k.Value → k.Value → Option k.Value}
    (hop : ∀ a b : k.Value, op.onValues a b =
      if Kind.Value.isZero b then .error (.divideByZero k)
      else (f a b).elim (.error (.overflow k op)) .ok) :
    BinarySpec op o s t left (do
      Edit.checks fun left => checkLayout left right
      Edit.checks fun left => checkDivisors left right
      zipCheckedInPlace f right (.overflow k op)) := by
  have hzero := onValues_eq_divideByZero_iff_isZero hop fun a b =>
    elim_overflow_ne_divideByZero op (f a b)
  obtain ⟨hfail, hpass⟩ := checkDivisors_spec hl hr heq hzero
  have hlayout := yields_checkLayout hl hr heq
  -- past the check, the operator on values is the checked one on every pair that counts
  have hrest : ¬ FailsWith op (.divideByZero k) s t → ∀ p ∈ s.zip t, p.1.2 = true →
      p.2.2 = true → op.onValues p.1.1 p.2.1
        = (f p.1.1 p.2.1).elim (.error (.overflow k op)) .ok := by
    intro hno p hp hx hy
    rw [hop, if_neg]
    exact fun hb => hno ⟨p, hp, hx, hy, (hzero _ _).2 hb⟩
  constructor
  case divideByZero => exact fun h => hlayout.refuses ((hfail h).bind _)
  case overflow =>
    intro hno h
    have hrefuses := (zipCheckedInPlace_spec hl hr heq (hrest hno)).1 h
    exact hlayout.refuses ((hpass hno).refuses hrefuses)
  case succeeds =>
    intro hno hover
    obtain ⟨d, hd, hstores, hagrees⟩ := (zipCheckedInPlace_spec hl hr heq (hrest hno)).2 hover
    exact ⟨d, _, hlayout.bind ((hpass hno).bind hd), hstores, hagrees⟩

/-- A binary operator that is legal for the kind does what the operator on values says. -/
theorem binarySpec (hl : left.Stores o s) (hr : right.Stores o' t) (heq : left.sizes = right.sizes)
    {op : BinaryOp} (hallows : k.support.allows (.binary op)) :
    BinarySpec op o s t left (binary op right) := by
  rcases carries_of_allows hallows with ⟨f, hop, hbinary, -⟩ | ⟨f, hop, hbinary, -⟩ |
    ⟨f, hop, hbinary, -⟩ | ⟨f, hop, hbinary, -⟩
  case total =>
    rw [hbinary]
    exact binarySpec_of_total hl hr heq op hop
  case division =>
    rw [hbinary]
    exact binarySpec_of_division hl hr heq op hop
  case checked =>
    rw [hbinary]
    exact binarySpec_of_checked hl hr heq op hop
  case checkedDivision =>
    rw [hbinary]
    exact binarySpec_of_checked_division hl hr heq op hop

/-- The layout is checked before anything else. -/
lemma refuses_binary_of_layout {op : BinaryOp} {e : ColumnError}
    (hallows : k.support.allows (.binary op)) (h : checkLayout left right = .error e) :
    (binary op right).Refuses left e := by
  have hlayout := Edit.refuses_checks (f := fun left : Container k => checkLayout left right) h
  rcases carries_of_allows hallows with ⟨f, -, hbinary, -⟩ | ⟨f, -, hbinary, -⟩ |
    ⟨f, -, hbinary, -⟩ | ⟨f, -, hbinary, -⟩
  all_goals
    rw [hbinary]
    exact hlayout.bind _

/-- An operator that is not legal for the kind is refused, whatever the operands are. -/
lemma refuses_binary_of_not_allows {op : BinaryOp} (hallows : ¬ k.support.allows (.binary op))
    (left right : Container k) :
    (binary op right).Refuses left (.unsupportedOperation k (.binary op)) := by
  rw [← k.support_arithmetic] at hallows
  unfold binary
  rcases harith : k.arithmetic with ops | ops | ops | ops <;> rcases op with op | op
  case rounding.bitwise | checked.bitwise | logical.arithmetic => exact Edit.refuses_fail _ _
  all_goals
    rw [harith] at hallows
    exact absurd rfl hallows

end Columnar.Container
