import Columnar.Proofs.Column.Equality
import Columnar.Proofs.Element.Integer
/-!
# Quotients and remainders of integer columns

Integer division is refused if some row has a value on the left and zero on the right; a zero
beneath a null, or beside one, does no harm. Otherwise the quotients and the remainders of two
columns put the left one together again, `(l / r) * r + l % r = l`, in every row that has both
operands. None of the three operators that follow the division is checked, and the smallest integer
over minus one wraps around on the way; reduced modulo a power of two the sum comes out right all
the same.
-/

namespace Columnar

variable {k : Kind} {ops : WrappingOps k.Value}

namespace Kind.Wraps

open Value (key)

/-! ### Two values -/

/-- Quotient and remainder put the left value together again. -/
lemma restore (h : k.Wraps ops) (a b : k.Value) :
    ops.arithmetic .add (ops.arithmetic .multiply (ops.arithmetic .divide a b) b)
      (ops.arithmetic .modulo a b) = a := by
  refine h.key_injective ?_
  -- the quotient and the product are reduced on the way, to integers congruent to the exact ones
  have hquotient := (k.wrap_modEq ((key a).tdiv (key b))).mul_right (key b)
  have hproduct := (k.wrap_modEq (k.wrap ((key a).tdiv (key b)) * key b)).trans hquotient
  rw [← h.wrap_key a, h.key_arithmetic, h.key_arithmetic, h.key_arithmetic, h.key_modulo,
    wrap_eq_wrap_iff]
  calc k.wrap (k.wrap ((key a).tdiv (key b)) * key b) + (key a).tmod (key b)
      ≡ (key a).tdiv (key b) * key b + (key a).tmod (key b) [ZMOD (2 ^ k.bits : ℕ)] :=
        hproduct.add_right _
    _ = key a := Int.tdiv_mul_add_tmod _ _

/-- The remainder is less than the divisor, and has the sign of the left value if it is not zero. -/
lemma remainder_bounds (h : k.Wraps ops) (a : k.Value) {b : k.Value} (hb : b ≠ k.zero) :
    (key (ops.arithmetic .modulo a b)).natAbs < (key b).natAbs ∧
      (key (ops.arithmetic .modulo a b) = 0 ∨
        (key (ops.arithmetic .modulo a b)).sign = (key a).sign) := by
  have hkey : key b ≠ 0 := fun hkey => hb (h.key_injective (hkey.trans h.key_zero.symm))
  rw [h.key_modulo]
  constructor
  · rw [Int.natAbs_tmod]
    exact Nat.mod_lt _ (Int.natAbs_pos.2 hkey)
  · rw [← Int.sign_eq_zero_iff_zero, Int.sign_tmod]
    split_ifs
    · exact .inl rfl
    · exact .inr rfl

/-! ### Two lists of rows -/

lemma isZero_iff (h : k.Wraps ops) (b : k.Value) : Value.isZero b ↔ b = k.zero := by
  obtain ⟨h32, h64⟩ := ne_float h.support_eq
  exact Value.equals_iff h32 h64 b k.zero

lemma onCells_eq_divideByZero_iff (h : k.Wraps ops) {op : ArithmeticOp} (hop : op.isDivision)
    {x y : Cell k} : (BinaryOp.arithmetic op).onCells x y = .error (.divideByZero k) ↔
      (∃ a, x = some a) ∧ y = some k.zero := by
  have hrefused : ∀ a b : k.Value,
      (BinaryOp.arithmetic op).onValues a b = .error (.divideByZero k) ↔ b = k.zero := by
    intro a b
    rw [h.onValues_eq, hop, Bool.true_and, ← h.isZero_iff]
    split_ifs with hb <;> simp [hb]
  simp only [BinaryOp.onCells_eq_error_iff, hrefused]
  constructor
  · rintro ⟨a, b, rfl, rfl, rfl⟩
    exact ⟨⟨a, rfl⟩, rfl⟩
  · rintro ⟨⟨a, rfl⟩, rfl⟩
    exact ⟨a, k.zero, rfl, rfl, rfl⟩

lemma onCells_eq_ok (h : k.Wraps ops) {op : ArithmeticOp} {x y : Cell k}
    (hxy : op.isDivision → ∀ a, x = some a → y ≠ some k.zero) :
    (BinaryOp.arithmetic op).onCells x y = .ok (Option.map₂ (ops.arithmetic op) x y) := by
  rcases x with _ | a <;> rcases y with _ | b
  case some.some =>
    have hb : ¬ (op.isDivision && Value.isZero b) := by
      rw [Bool.and_eq_true, h.isZero_iff]
      rintro ⟨hop, rfl⟩
      exact hxy hop a rfl rfl
    rw [BinaryOp.onCells, h.onValues_eq, if_neg hb]
    rfl
  all_goals rfl

end Kind.Wraps

namespace Column

open Kind.Value (key)

variable {name name' : String} {o o' : Options} {xs ys : List (Cell k)} {l r d q m s : Column k}
  {op : ArithmeticOp}

/-- An operator on columns of equal layouts is the one on their pairs of rows. -/
lemma refines_arithmetic (h : k.Wraps ops) (hl : l.Holds name o xs) (hr : r.Holds name' o' ys)
    (heq : l.container.sizes = r.container.sizes) (op : ArithmeticOp) :
    (l.binary (.arithmetic op) r).Refines (Holds name o)
      ((BinaryOp.arithmetic op).onPairs (xs.zip ys)) := by
  have hrefines := refines_binary hl hr.2 (.arithmetic op)
  rwa [check_eq_ok (h.allows _), hl.2.checkLayout_of_sizes_eq hr.2 heq] at hrefines

/-- An operator that meets no zero divisor gives its results, row by row. -/
lemma Holds.exists_arithmetic (h : k.Wraps ops) (hl : l.Holds name o xs)
    (hr : r.Holds name' o' ys) (heq : l.container.sizes = r.container.sizes) (op : ArithmeticOp)
    (hzero : op.isDivision → ∀ a, (some a, some k.zero) ∉ xs.zip ys) :
    ∃ d, (l.binary (.arithmetic op) r).result = .ok d ∧
      d.Holds name o (List.zipWith (Option.map₂ (ops.arithmetic op)) xs ys) := by
  have hrefines := refines_arithmetic h hl hr heq op
  have hpairs : (BinaryOp.arithmetic op).onPairs ((xs.zip ys).map id)
      = .ok ((xs.zip ys).map fun p => Option.map₂ (ops.arithmetic op) p.1 p.2) := by
    refine BinaryOp.onPairs_eq_ok ?_
    rintro ⟨x, y⟩ hp
    refine h.onCells_eq_ok fun hop a hx hy => hzero hop a ?_
    rwa [← hx, ← hy]
  rw [List.map_id] at hpairs
  rw [hpairs] at hrefines
  rw [← List.map_uncurry_zip_eq_zipWith]
  exact hrefines

/-- Some row has a value on the left and zero on the right. -/
def DividesByZero (l r : Column k) : Prop :=
  ∃ i a, l.get i = .ok (some a) ∧ r.get i = .ok (some k.zero)

lemma Holds.dividesByZero_iff (hl : l.Holds name o xs) (hr : r.Holds name' o' ys) :
    l.DividesByZero r ↔ ∃ a, (some a, some k.zero) ∈ xs.zip ys := by
  simp only [DividesByZero, hl.get_eq_ok_iff, hr.get_eq_ok_iff, List.mem_iff_getElem?,
    List.getElem?_zip_eq_some]
  exact exists_comm

/-- Division is refused for a zero divisor, and for nothing else. -/
lemma Holds.division_refused_iff (h : k.Wraps ops) (hl : l.Holds name o xs)
    (hr : r.Holds name' o' ys) (heq : l.container.sizes = r.container.sizes)
    (hop : op.isDivision) :
    (l.binary (.arithmetic op) r).result = .error (.divideByZero k) ↔ l.DividesByZero r := by
  rw [hl.dividesByZero_iff hr]
  constructor
  · intro he
    by_contra hzero
    obtain ⟨d, hd, -⟩ := hl.exists_arithmetic h hr heq op fun _ a ha => hzero ⟨a, ha⟩
    rw [hd] at he
    cases he
  · rintro ⟨a, ha⟩
    have hrefines := refines_arithmetic h hl hr heq op
    rwa [BinaryOp.onPairs_eq_divideByZero_iff.2
      ⟨_, ha, (h.onCells_eq_divideByZero_iff hop).2 ⟨⟨a, rfl⟩, rfl⟩⟩] at hrefines

/-- The column `s` is `l` put together again, as far as there is something to divide by, and `m` has
the remainders. -/
structure Restores (l r m s : Column k) : Prop where
  len_eq : s.len = l.len
  null_iff : ∀ i, s.get i = .ok none ↔ l.get i = .ok none ∨ r.get i = .ok none
  value : ∀ i a b, l.get i = .ok (some a) → r.get i = .ok (some b) → s.get i = .ok (some a)
  remainder : ∀ i a b, l.get i = .ok (some a) → r.get i = .ok (some b) →
    ∃ c, m.get i = .ok (some c) ∧ (key c).natAbs < (key b).natAbs ∧
      (key c = 0 ∨ (key c).sign = (key a).sign)

/-- What the quotients and remainders of rows put together. -/
lemma zipWith_restore (h : k.Wraps ops) (xs ys : List (Cell k)) :
    List.zipWith (Option.map₂ (ops.arithmetic .add))
      (List.zipWith (Option.map₂ (ops.arithmetic .multiply))
        (List.zipWith (Option.map₂ (ops.arithmetic .divide)) xs ys) ys)
      (List.zipWith (Option.map₂ (ops.arithmetic .modulo)) xs ys)
        = List.zipWith (Option.map₂ fun a _ => a) xs ys := by
  have hcell : ∀ x y : Cell k,
      Option.map₂ (ops.arithmetic .add) (Option.map₂ (ops.arithmetic .multiply)
          (Option.map₂ (ops.arithmetic .divide) x y) y) (Option.map₂ (ops.arithmetic .modulo) x y)
        = Option.map₂ (fun a _ => a) x y := by
    intro x y
    rcases x with _ | a <;> rcases y with _ | b
    case some.some => exact congrArg some (h.restore a b)
    all_goals rfl
  induction xs generalizing ys with
  | nil => rfl
  | cons x xs ih =>
    rcases ys with _ | ⟨y, ys⟩
    · rfl
    · simp only [List.zipWith_cons_cons, hcell, ih]

lemma Holds.restores (h : k.Wraps ops) (hl : l.Holds name o xs) (hr : r.Holds name' o' ys)
    (hlen : xs.length = ys.length) (hzero : ¬ l.DividesByZero r)
    (hm : m.Holds name o (List.zipWith (Option.map₂ (ops.arithmetic .modulo)) xs ys))
    (hs : s.Holds name o (List.zipWith (Option.map₂ fun a _ => a) xs ys)) :
    Restores l r m s := by
  constructor
  case len_eq => rw [hs.len_eq, hl.len_eq, List.length_zipWith, hlen, Nat.min_self]
  case null_iff =>
    intro i
    simp only [hs.get_eq_ok_iff, hl.get_eq_ok_iff, hr.get_eq_ok_iff, List.getElem?_zipWith_eq_some,
      Option.map₂_eq_none_iff]
    constructor
    · rintro ⟨x, y, hx, hy, rfl | rfl⟩
      · exact .inl hx
      · exact .inr hy
    · -- the other column has a row there too
      rintro (hx | hy)
      · have hi : i < ys.length := hlen ▸ (List.getElem?_eq_some_iff.1 hx).1
        exact ⟨none, ys[i], hx, List.getElem?_eq_getElem hi, .inl rfl⟩
      · have hi : i < xs.length := hlen ▸ (List.getElem?_eq_some_iff.1 hy).1
        exact ⟨xs[i], none, List.getElem?_eq_getElem hi, hy, .inr rfl⟩
  case value =>
    intro i a b ha hb
    rw [hs.get_eq_ok_iff, List.getElem?_zipWith_eq_some]
    exact ⟨some a, some b, hl.get_eq_ok_iff.1 ha, hr.get_eq_ok_iff.1 hb, rfl⟩
  case remainder =>
    intro i a b ha hb
    have hb' : b ≠ k.zero := by
      rintro rfl
      exact hzero ⟨i, a, ha, hb⟩
    refine ⟨ops.arithmetic .modulo a b, ?_, h.remainder_bounds a hb'⟩
    rw [hm.get_eq_ok_iff, List.getElem?_zipWith_eq_some]
    exact ⟨some a, some b, hl.get_eq_ok_iff.1 ha, hr.get_eq_ok_iff.1 hb, rfl⟩

/-- **Quotients and remainders put the left column together again.** For the nine integer kinds and
two reachable columns of one layout, division and remainder are refused exactly if a row has a value
on the left and zero on the right. Otherwise both succeed, and so do the product of the quotients
with the right column and the sum of this with the remainders. The sum is null where one of the
columns is and has the value of the left column elsewhere, the smallest one over minus one included;
the remainder is less than the divisor there and is zero or has the sign of the left value. -/
theorem Reachable.division_restores (hl : l.Reachable) (hr : r.Reachable)
    (hk : k.support = .integral) (heq : l.container.sizes = r.container.sizes) :
    ((l.binary (.arithmetic .divide) r).result = .error (.divideByZero k) ↔ l.DividesByZero r) ∧
    ((l.binary (.arithmetic .modulo) r).result = .error (.divideByZero k) ↔ l.DividesByZero r) ∧
    (¬ l.DividesByZero r → ∃ q m p s : Column k,
      (l.binary (.arithmetic .divide) r).result = .ok q ∧
      (l.binary (.arithmetic .modulo) r).result = .ok m ∧
      (q.binary (.arithmetic .multiply) r).result = .ok p ∧
      (p.binary (.arithmetic .add) m).result = .ok s ∧ Restores l r m s) := by
  obtain ⟨ops, h⟩ := Kind.exists_wraps hk
  have hlen := hl.holds.2.length_eq hr.holds.2 heq
  refine ⟨hl.holds.division_refused_iff h hr.holds heq rfl,
    hl.holds.division_refused_iff h hr.holds heq rfl, fun hzero => ?_⟩
  have hpairs : ∀ a, (some a, some k.zero) ∉ l.rows.zip r.rows :=
    fun a ha => hzero ((hl.holds.dividesByZero_iff hr.holds).2 ⟨a, ha⟩)
  -- results have the layout of the left operand
  have hsizes : ∀ {c : Column k} {zs : List (Cell k)}, c.Holds l.name l.options zs →
      zs.length = l.rows.length → c.container.sizes = l.container.sizes := by
    intro c zs hc hzs
    rw [hc.2.sizes_eq, hl.holds.2.sizes_eq, hzs]
  obtain ⟨q, hq, hqrows⟩ := hl.holds.exists_arithmetic h hr.holds heq .divide fun _ => hpairs
  obtain ⟨m, hm, hmrows⟩ := hl.holds.exists_arithmetic h hr.holds heq .modulo fun _ => hpairs
  have hqsizes := hsizes hqrows (by simp [hlen])
  obtain ⟨p, hp, hprows⟩ :=
    hqrows.exists_arithmetic h hr.holds (hqsizes.trans heq) .multiply nofun
  have hpsizes := hsizes hprows (by simp [hlen])
  have hmsizes := hsizes hmrows (by simp [hlen])
  obtain ⟨s, hs, hsrows⟩ :=
    hprows.exists_arithmetic h hmrows (hpsizes.trans hmsizes.symm) .add nofun
  rw [zipWith_restore h] at hsrows
  exact ⟨q, m, p, s, hq, hm, hp, hs, hl.holds.restores h hr.holds hlen hzero hmrows hsrows⟩

/-- The smallest integer over minus one wraps around to itself and is restored, and zeros beside and
beneath nulls are passed over; with a value on the left the zero is refused. -/
theorem division_restores_of_minimum : ∃ l l' r : Column .int8,
    (ofRows "l" [some (-128), some (-7), none, some 9] (.withChunkRows .int8 2)).result = .ok l ∧
      (ofRows "l" [some 1, some 2, some 3, some 4] (.withChunkRows .int8 2)).result = .ok l' ∧
      (ofRows "r" [some (-1), some 2, some 0, none] (.withChunkRows .int8 2)).result = .ok r ∧
      (∃ q m p s : Column .int8,
        (l.binary (.arithmetic .divide) r).result = .ok q ∧
          (l.binary (.arithmetic .modulo) r).result = .ok m ∧
          (q.binary (.arithmetic .multiply) r).result = .ok p ∧
          (p.binary (.arithmetic .add) m).result = .ok s ∧ Restores l r m s ∧
          s.get 0 = .ok (some (-128)) ∧ s.get 1 = .ok (some (-7)) ∧ s.get 2 = .ok none) ∧
      (l'.binary (.arithmetic .modulo) r).result = .error (.divideByZero .int8) := by
  obtain ⟨l, hl, hrows, hsizes, hget, hget₁, hget₂⟩ : ∃ l : Column .int8,
      (ofRows "l" [some (-128), some (-7), none, some 9] (.withChunkRows .int8 2)).result = .ok l ∧
        l.rows = [some (-128), some (-7), none, some 9] ∧ l.container.sizes = [2, 2] ∧
        l.get 0 = .ok (some (-128)) ∧ l.get 1 = .ok (some (-7)) ∧ l.get 2 = .ok none :=
    ⟨_, rfl, rfl, rfl, rfl, rfl, rfl⟩
  obtain ⟨l', hl', hsizes', hget'⟩ : ∃ l' : Column .int8,
      (ofRows "l" [some 1, some 2, some 3, some 4] (.withChunkRows .int8 2)).result = .ok l' ∧
        l'.container.sizes = [2, 2] ∧ l'.get 2 = .ok (some 3) := ⟨_, rfl, rfl, rfl⟩
  obtain ⟨r, hr, hrows', hsizes'', hget₀', hget₁', hget₂'⟩ : ∃ r : Column .int8,
      (ofRows "r" [some (-1), some 2, some 0, none] (.withChunkRows .int8 2)).result = .ok r ∧
        r.rows = [some (-1), some 2, some 0, none] ∧ r.container.sizes = [2, 2] ∧
        r.get 0 = .ok (some (-1)) ∧ r.get 1 = .ok (some 2) ∧ r.get 2 = .ok (some 0) :=
    ⟨_, rfl, rfl, rfl, rfl, rfl, rfl⟩
  have hlreach : l.Reachable := .ofRows "l" _ _ hl
  have hrreach : r.Reachable := .ofRows "r" _ _ hr
  have hzero : ¬ l.DividesByZero r := by
    rw [hlreach.holds.dividesByZero_iff hrreach.holds, hrows, hrows']
    rintro ⟨a, ha⟩
    have hzero : Kind.zero .int8 = (0 : Int8) := rfl
    simp [hzero] at ha
  obtain ⟨-, -, hrestores⟩ :=
    hlreach.division_restores hrreach rfl (hsizes.trans hsizes''.symm)
  obtain ⟨-, hrefused, -⟩ := Reachable.division_restores (.ofRows "l" _ _ hl') hrreach rfl
    (hsizes'.trans hsizes''.symm)
  obtain ⟨q, m, p, s, hq, hm, hp, hs, hrest⟩ := hrestores hzero
  exact ⟨l, l', r, hl, hl', hr, ⟨q, m, p, s, hq, hm, hp, hs, hrest, hrest.value 0 _ _ hget hget₀',
    hrest.value 1 _ _ hget₁ hget₁', (hrest.null_iff 2).2 (.inl hget₂)⟩,
    hrefused.2 ⟨2, _, hget', hget₂'⟩⟩

end Column

end Columnar
