import Columnar.Proofs.Column.Binary
import Columnar.Proofs.Column.Rows
import Columnar.Proofs.Element.Integer
/-!
# Shifts of integer columns

A shift moves bits by the amount modulo the width of the kind, so that a negative amount stands for
one below the width. To the left it multiplies by a power of two and reduces; to the right it
divides and rounds down, for a value with a sign as for one without.

A shift is carried out on every stored value, also beneath nulls, and leaves everything else of the
container as it is. Two shifts one after the other are therefore one loop with both of them, and the
columns that result can be compared as they are, with all that is stored.
-/

namespace Columnar

variable {k : Kind} {ops : WrappingOps k.Value}

/-! ### Places -/

namespace Kind

/-- The number of places by which bits move, which is less than the width of the kind. -/
def places (k : Kind) (amount : Int32) : ℕ := (amount.toInt % k.bits).toNat

namespace Wraps

lemma places_eq_places (h : k.Wraps ops) (amount : Int32) :
    ops.places amount = k.places amount := by
  rw [Kind.places, ← h.places_eq, Int.toNat_natCast]

/-- Amounts that are congruent modulo the width move bits by as many places. -/
lemma places_congr (h : k.Wraps ops) {amount amount' : Int32}
    (hmod : amount.toInt ≡ amount'.toInt [ZMOD k.bits]) :
    ops.places amount = ops.places amount' := by
  rw [h.places_eq_places, h.places_eq_places, Kind.places, Kind.places, hmod]

/-- The sum of two amounts below the width is no amount that wraps around. -/
lemma places_add (h : k.Wraps ops) {a b : Int32} (ha : 0 ≤ a.toInt) (hb : 0 ≤ b.toInt)
    (hab : a.toInt + b.toInt < k.bits) :
    ops.places (a + b) = ops.places a + ops.places b := by
  have hbits : k.bits ≤ 128 := by cases k <;> decide
  have hsum : (a + b).toInt = a.toInt + b.toInt := by
    rw [Int32.toInt_add]
    exact Int.bmod_eq_of_le (by omega) (by omega)
  rw [← Int.natCast_inj, Nat.cast_add, h.places_eq, h.places_eq, h.places_eq, hsum,
    Int.emod_eq_of_lt (by omega) hab, Int.emod_eq_of_lt ha (by omega),
    Int.emod_eq_of_lt hb (by omega)]

/-- To divide by two powers of two is to divide by their product. -/
lemma shift_right_right (h : k.Wraps ops) (v : k.Value) {i j : ℕ} (hij : i + j < k.bits) :
    ops.shift .right (ops.shift .right v i) j = ops.shift .right v (i + j) := by
  refine h.key_injective ?_
  rw [h.key_shift_right _ j (by omega), h.key_shift_right _ i (by omega),
    h.key_shift_right _ (i + j) hij, Int.ediv_ediv_of_nonneg (by positivity), pow_add]

end Wraps

end Kind

/-! ### Maps of stored values -/

namespace Container

/-- The container with every stored value replaced by its image under a function. -/
def mapStored (f : k.Value → k.Value) (c : Container k) : Container k :=
  { c with chunks := c.chunks.map fun chunk => chunk.withValues (chunk.values.values.map f) }

lemma mapStored_mapStored (f g : k.Value → k.Value) (c : Container k) :
    (c.mapStored f).mapStored g = c.mapStored (g ∘ f) := by
  simp [mapStored, Chunk.withValues, Function.comp_def]

/-- The allocations of a copy are as large as they have to be for other values as well. -/
lemma copy_mapStored_copy (f : k.Value → k.Value) (c : Container k) :
    (c.copy.mapStored f).copy = c.copy.mapStored f := by
  simp [copy, mapStored, Chunk.withValues, Chunk.copy, Buffer.copy, Buffer.size,
    Function.comp_def]

end Container

namespace Column

open Kind.Value (key)

variable {name : String} {o : Options} {rows : List (Cell k)} {c d : Column k} {op : ShiftOp}
  {amount : Int32}

/-- A shift replaces every stored value of a copy, whether it is a row or beneath a null. -/
lemma result_shift (h : k.Wraps ops) (c : Column k) (op : ShiftOp) (amount : Int32) :
    (c.shift op amount).result = .ok ⟨c.name, c.container.copy.mapStored fun v =>
      ops.shift op v (ops.places amount)⟩ := by
  rw [shift, shiftInPlace, Container.shift, check, h.arithmetic_eq]
  rfl

/-- The shifted column has the same shape: it differs in the values of its rows only. -/
structure SameShape (c d : Column k) : Prop where
  name_eq : d.name = c.name
  options_eq : d.options = c.options
  len_eq : d.len = c.len
  nullCount_eq : d.nullCount = c.nullCount
  sizes_eq : d.container.sizes = c.container.sizes
  null_iff : ∀ i, d.get i = .ok none ↔ c.get i = .ok none

lemma Holds.exists_shift (h : k.Wraps ops) (hc : c.Holds name o rows) (op : ShiftOp)
    (amount : Int32) : ∃ d, (c.shift op amount).result = .ok d ∧
      d.Holds name o (rows.map (Option.map fun v => ops.shift op v (ops.places amount))) := by
  have hrows : rows.mapM (op.onCell amount)
      = .ok (rows.map (Option.map fun v => ops.shift op v (ops.places amount))) := by
    refine mapM_eq_ok fun x _ => ?_
    rcases x with _ | v
    · rfl
    · rw [ShiftOp.onCell, h.onValue_eq]
      rfl
  have hrefines := refines_shift hc op amount
  rw [check_eq_ok (h.allows _)] at hrefines
  change Traced.Refines _ _ (rows.mapM _) at hrefines
  rw [hrows] at hrefines
  exact hrefines

lemma Holds.sameShape (hc : c.Holds name o rows) {f : k.Value → k.Value}
    (hd : d.Holds name o (rows.map (Option.map f))) : SameShape c d := by
  constructor
  case name_eq => exact hd.1.trans hc.1.symm
  case options_eq => exact hd.2.options_eq.trans hc.2.options_eq.symm
  case len_eq => rw [hd.len_eq, hc.len_eq, List.length_map]
  case nullCount_eq =>
    show d.container.nullCount = c.container.nullCount
    rw [hd.2.nullCount_eq, hc.2.nullCount_eq, List.countP_map]
    congr 1
    funext x
    cases x <;> rfl
  case sizes_eq => rw [hd.2.sizes_eq, hc.2.sizes_eq, List.length_map]
  case null_iff =>
    intro i
    rw [hd.get_eq_ok_iff, hc.get_eq_ok_iff, List.getElem?_map]
    rcases rows[i]? with _ | _ | v <;> simp

/-- What the shifts of an integer column do. -/
structure ShiftsExactly (c : Column k) : Prop where
  left : ∀ amount : Int32, ∃ d, (c.shift .left amount).result = .ok d ∧ SameShape c d ∧
    ∀ i v, c.get i = .ok (some v) →
      ∃ w, d.get i = .ok (some w) ∧ key w = k.wrap (key v * 2 ^ k.places amount)
  /-- The quotient is rounded down. -/
  right : ∀ amount : Int32, ∃ d, (c.shift .right amount).result = .ok d ∧ SameShape c d ∧
    ∀ i v, c.get i = .ok (some v) →
      ∃ w, d.get i = .ok (some w) ∧ key w = key v / 2 ^ k.places amount
  /-- The shift of a column is that of its values. -/
  onValue : ∀ (op : ShiftOp) (amount : Int32) (d : Column k), (c.shift op amount).result = .ok d →
    ∀ i v, c.get i = .ok (some v) →
      ∃ w, op.onValue v amount = .ok w ∧ d.get i = .ok (some w)
  /-- Amounts that are congruent modulo the width give one column. -/
  congr : ∀ (op : ShiftOp) (amount amount' : Int32),
    amount.toInt ≡ amount'.toInt [ZMOD k.bits] →
    (c.shift op amount).result = (c.shift op amount').result
  /-- Two shifts to the right give the column that one by the sum of the amounts gives. -/
  right_right : ∀ a b : Int32, 0 ≤ a.toInt → 0 ≤ b.toInt → a.toInt + b.toInt < k.bits →
    ∃ d e, (c.shift .right a).result = .ok d ∧ (d.shift .right b).result = .ok e ∧
      (c.shift .right (a + b)).result = .ok e

/-- **Shifts are exact.** For the nine integer kinds, a shift of a reachable column never fails. The
number of places is the amount modulo the width, also for amounts below zero. To the left every
value is multiplied by a power of two and reduced into the range of the kind, to the right it is
divided by it and rounded down; nulls stay null, and length, number of nulls and layout are kept.
Amounts that are congruent modulo the width give one column, and two shifts to the right add up. -/
theorem Reachable.shifts_exactly (hc : c.Reachable) (hk : k.support = .integral) :
    ShiftsExactly c := by
  obtain ⟨ops, h⟩ := Kind.exists_wraps hk
  -- the value of a row is shifted as a single value
  have hvalue : ∀ {op : ShiftOp} {amount : Int32} {d : Column k}, d.Holds c.name c.options
      (c.rows.map (Option.map fun v => ops.shift op v (ops.places amount))) →
      ∀ i v, c.get i = .ok (some v) →
        d.get i = .ok (some (ops.shift op v (ops.places amount))) := by
    intro op amount d hd i v hv
    rw [hd.get_eq_ok_iff, List.getElem?_map, hc.holds.get_eq_ok_iff.1 hv]
    rfl
  constructor
  case left =>
    intro amount
    obtain ⟨d, hd, hholds⟩ := hc.holds.exists_shift h .left amount
    refine ⟨d, hd, hc.holds.sameShape hholds, fun i v hv => ⟨_, hvalue hholds i v hv, ?_⟩⟩
    rw [h.key_shift_left v _ (h.places_lt amount), h.places_eq_places]
  case right =>
    intro amount
    obtain ⟨d, hd, hholds⟩ := hc.holds.exists_shift h .right amount
    refine ⟨d, hd, hc.holds.sameShape hholds, fun i v hv => ⟨_, hvalue hholds i v hv, ?_⟩⟩
    rw [h.key_shift_right v _ (h.places_lt amount), h.places_eq_places]
  case onValue =>
    intro op amount d hd i v hv
    obtain ⟨e, he, hholds⟩ := hc.holds.exists_shift h op amount
    obtain rfl := Except.ok.inj (hd.symm.trans he)
    exact ⟨_, h.onValue_eq op v amount, hvalue hholds i v hv⟩
  case congr =>
    intro op amount amount' hmod
    rw [result_shift h, result_shift h, h.places_congr hmod]
  case right_right =>
    intro a b ha hb hab
    have hplaces := h.places_add ha hb hab
    have hlt := h.places_lt (a + b)
    refine ⟨_, _, result_shift h c .right a, result_shift h _ .right b, ?_⟩
    rw [result_shift h, Container.copy_mapStored_copy, Container.mapStored_mapStored]
    congr 3
    funext v
    rw [Function.comp_apply, h.shift_right_right v (hplaces ▸ hlt), hplaces]

/-- Shifts of bytes by an amount below zero and by one past the width, of one place each. -/
theorem shifts_exactly_of_bytes : ∃ c d e : Column .int8,
    (ofRows "a" [some (-128), none, some 5] (.withChunkRows .int8 2)).result = .ok c ∧
      (c.shift .left (-7)).result = .ok d ∧ d.rows = [some 0, none, some 10] ∧
      (c.shift .right 33).result = .ok e ∧ e.rows = [some (-64), none, some 2] ∧
      ShiftsExactly c := by
  obtain ⟨c, hc, d, hd, hrows, e, he, hrows'⟩ : ∃ c : Column .int8,
      (ofRows "a" [some (-128), none, some 5] (.withChunkRows .int8 2)).result = .ok c ∧
        ∃ d, (c.shift .left (-7)).result = .ok d ∧ d.rows = [some 0, none, some 10] ∧
        ∃ e, (c.shift .right 33).result = .ok e ∧ e.rows = [some (-64), none, some 2] :=
    ⟨_, rfl, _, rfl, by cbv, _, rfl, by cbv⟩
  exact ⟨c, d, e, hc, hd, hrows, he, hrows',
    Reachable.shifts_exactly (.ofRows "a" _ _ hc) rfl⟩

end Column

end Columnar
