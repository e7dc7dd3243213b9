import Columnar.Proofs.Column.Binary
import Columnar.Proofs.Column.Running
import Columnar.Proofs.Column.Selection
import Columnar.Proofs.Column.Sorting
import Columnar.Proofs.Element.Integer
/-!
# Sums and products of integer columns

The sum of an integer column is taken from the first value on, by an addition that wraps around. As
the addition of words respects congruence, the result is the exact sum of the integers, reduced once
into the range of the kind; and so it is with products. Hence the order of the rows does not matter,
nor do nulls and the cut into chunks, and a column that is split in two has the total of the totals
of its parts, where the total of no values is neutral.
-/

namespace Columnar.Column

open Kind.Value (key)

variable {k : Kind} {ops : WrappingOps k.Value}

/-- The reductions by arithmetic. -/
inductive Total where
  | sum
  | product

namespace Total

variable {t : Total} {vs ws : List k.Value} {x y : Option k.Value}

/-- The operator by which one more value is taken in. -/
def op : Total → ArithmeticOp
  | .sum => .add
  | .product => .multiply

/-- The aggregate that gives the total. -/
def aggregate : Total → Aggregate
  | .sum => .sum
  | .product => .product

/-- The total of a column. -/
def of (t : Total) (c : Column k) : Except ColumnError (Option k.Value) :=
  match t with
  | .sum => c.sum
  | .product => c.product

/-- The exact total of integers. -/
def exact : Total → List ℤ → ℤ
  | .sum => List.sum
  | .product => List.prod

/-- The totals of two parts, put together by the operator. A part without values does not count. -/
def merge (t : Total) : Option k.Value → Option k.Value → Except ColumnError (Option k.Value)
  | none, y => .ok y
  | some a, none => .ok (some a)
  | some a, some b => (BinaryOp.onValues (.arithmetic t.op) a b).map some

/-! ### Exact totals -/

lemma exact_singleton (t : Total) (n : ℤ) : t.exact [n] = n := by
  cases t <;> simp [exact]

lemma exact_cons_cons (t : Total) (m n : ℤ) (ns : List ℤ) :
    t.exact (m :: n :: ns) = t.exact (t.op.exact m n :: ns) := by
  cases t <;> simp [exact, op, ArithmeticOp.exact, add_assoc, mul_assoc]

lemma exact_append (t : Total) (ms ns : List ℤ) :
    t.exact (ms ++ ns) = t.op.exact (t.exact ms) (t.exact ns) := by
  cases t <;> simp [exact, op, ArithmeticOp.exact]

lemma exact_perm (t : Total) {ms ns : List ℤ} (h : ms.Perm ns) : t.exact ms = t.exact ns := by
  cases t with
  | sum => exact h.sum_eq
  | product => exact h.prod_eq

/-- The operator respects congruence. -/
lemma exact_modEq (t : Total) {a b c d m : ℤ} (h : a ≡ b [ZMOD m]) (h' : c ≡ d [ZMOD m]) :
    t.op.exact a c ≡ t.op.exact b d [ZMOD m] := by
  cases t with
  | sum => exact h.add h'
  | product => exact h.mul h'

/-- A first integer may be replaced by a congruent one. -/
lemma exact_cons_modEq (t : Total) {a b m : ℤ} (h : a ≡ b [ZMOD m]) (ns : List ℤ) :
    t.exact (a :: ns) ≡ t.exact (b :: ns) [ZMOD m] := by
  have hcons := fun n : ℤ => t.exact_append [n] ns
  simp only [exact_singleton, List.singleton_append] at hcons
  rw [hcons, hcons]
  exact t.exact_modEq h (.refl _)

/-! ### Totals of values -/

/-- The total of some values: there is none if there are no values, and otherwise it is the exact
total of the integers, reduced into the range of the kind. -/
structure IsTotal (t : Total) (vs : List k.Value) (x : Option k.Value) : Prop where
  none_iff : x = none ↔ vs = []
  key_eq : ∀ v, x = some v → key v = k.wrap (t.exact (vs.map key))

lemma IsTotal.unique (h : k.Wraps ops) (hx : t.IsTotal vs x) (hy : t.IsTotal vs y) : x = y := by
  rcases x with _ | v <;> rcases y with _ | w
  · rfl
  · exact absurd (hy.none_iff.2 (hx.none_iff.1 rfl)) nofun
  · exact absurd (hx.none_iff.2 (hy.none_iff.1 rfl)) nofun
  · exact congrArg some (h.key_injective ((hx.key_eq v rfl).trans (hy.key_eq w rfl).symm))

lemma IsTotal.perm (hx : t.IsTotal vs x) (hperm : vs.Perm ws) : t.IsTotal ws x := by
  refine ⟨?_, fun v hv => ?_⟩
  · rw [hx.none_iff, ← List.length_eq_zero_iff, hperm.length_eq, List.length_eq_zero_iff]
  · rw [hx.key_eq v hv, t.exact_perm (hperm.map key)]

lemma onValues_op (h : k.Wraps ops) (t : Total) (a b : k.Value) :
    BinaryOp.onValues (.arithmetic t.op) a b = .ok (ops.arithmetic t.op a b) := by
  rw [h.onValues_eq]
  cases t <;> rfl

lemma step_eq (t : Total) (a b : k.Value) :
    t.aggregate.step a b = BinaryOp.onValues (.arithmetic t.op) a b := by
  cases t <;> rfl

/-- The loop over the values, begun with a first one, gives the exact total, reduced; by induction
on the values, where each step replaces the first two by the reduced result. -/
theorem foldlM_step (h : k.Wraps ops) (t : Total) (a : k.Value) (vs : List k.Value) :
    ∃ v, vs.foldlM t.aggregate.step a = .ok v ∧
      key v = k.wrap (t.exact ((a :: vs).map key)) := by
  induction vs generalizing a with
  | nil => exact ⟨a, rfl, by rw [List.map_singleton, exact_singleton, h.wrap_key]⟩
  | cons b vs ih =>
    obtain ⟨v, hv, hkey⟩ := ih (ops.arithmetic t.op a b)
    refine ⟨v, ?_, ?_⟩
    · rw [List.foldlM_cons, step_eq, onValues_op h]
      exact hv
    · rw [hkey, List.map_cons, List.map_cons, List.map_cons, exact_cons_cons, h.key_arithmetic,
        Kind.wrap_eq_wrap_iff]
      exact t.exact_cons_modEq (k.wrap_modEq _) _

lemma exists_isTotal (h : k.Wraps ops) (t : Total) (vs : List k.Value) :
    ∃ x, fold t.aggregate vs = .ok x ∧ t.IsTotal vs x := by
  rcases vs with _ | ⟨a, vs⟩
  · exact ⟨none, rfl, by simp, nofun⟩
  · obtain ⟨v, hv, hkey⟩ := foldlM_step h t a vs
    refine ⟨some v, ?_, by simp, ?_⟩
    · rw [fold, hv]
      rfl
    · rintro _ ⟨⟩
      exact hkey

/-- The totals of two lists of values make that of both. -/
lemma IsTotal.merge (h : k.Wraps ops) (hx : t.IsTotal vs x) (hy : t.IsTotal ws y) :
    ∃ z, t.merge x y = .ok z ∧ t.IsTotal (vs ++ ws) z := by
  rcases x with _ | a
  · obtain rfl := hx.none_iff.1 rfl
    exact ⟨y, rfl, hy⟩
  rcases y with _ | b
  · obtain rfl := hy.none_iff.1 rfl
    exact ⟨some a, rfl, by rwa [List.append_nil]⟩
  refine ⟨some (ops.arithmetic t.op a b), ?_, ?_, ?_⟩
  · rw [Total.merge, onValues_op h]
    rfl
  · have hvs : vs ≠ [] := fun hvs => absurd (hx.none_iff.2 hvs) nofun
    simp [hvs]
  · rintro _ ⟨⟩
    rw [h.key_arithmetic, hx.key_eq a rfl, hy.key_eq b rfl, List.map_append, exact_append,
      Kind.wrap_eq_wrap_iff]
    exact t.exact_modEq (k.wrap_modEq _) (k.wrap_modEq _)

end Total

/-! ### Totals of columns -/

variable {t : Total} {name name' : String} {o o' : Options} {rows rows' : List (Cell k)}
  {c d : Column k}

lemma Holds.exists_isTotal (h : k.Wraps ops) (hc : c.Holds name o rows) (t : Total) :
    ∃ x, t.of c = .ok x ∧ t.IsTotal (rows.filterMap id) x := by
  obtain ⟨x, hx, htotal⟩ := Total.exists_isTotal h t (rows.filterMap id)
  have hof : t.of c = c.reduce t.aggregate := by cases t <;> rfl
  refine ⟨x, ?_, htotal⟩
  rw [hof, hc.reduce_eq, check_eq_ok (h.allows _)]
  exact hx

/-- Columns of the same values in any order have the same total. -/
lemma Holds.total_eq_of_perm (h : k.Wraps ops) (hc : c.Holds name o rows)
    (hd : d.Holds name' o' rows') (hperm : (rows'.filterMap id).Perm (rows.filterMap id)) :
    t.of d = t.of c := by
  obtain ⟨x, hx, htotal⟩ := hc.exists_isTotal h t
  obtain ⟨y, hy, htotal'⟩ := hd.exists_isTotal h t
  rw [hx, hy, (htotal'.perm hperm).unique h htotal]

/-- The total of an integer column is exact up to reduction, and with that a matter of the values
alone. -/
structure TotalsExactly (t : Total) (c : Column k) : Prop where
  /-- There is a total if some row has a value, and it is the exact one, reduced. -/
  exact : ∃ x, t.of c = .ok x ∧ (x = none ↔ ∀ i v, c.get i ≠ .ok (some v)) ∧
    ∀ v, x = some v → key v = k.wrap (t.exact (c.values.map key))
  /-- Row numbers, by which columns are sorted, are words of 64 bits. -/
  sort : c.len ≤ 2 ^ 64 → ∀ ascending, ∃ d, (c.sort ascending).result = .ok d ∧ t.of d = t.of c
  select : ∀ (map : Array ℕ) (invert : Bool), map.toList.Perm (List.range c.len) →
    ∃ d, (c.select map invert).result = .ok d ∧ t.of d = t.of c
  selectByColumn : ∀ (map : Column .uint64) (invert : Bool), map.Reachable →
    (map.rows.map (Option.map UInt64.toNat)).Perm ((List.range c.len).map some) →
    ∃ d, (c.selectByColumn map invert).result = .ok d ∧ t.of d = t.of c
  dropNulls : ∃ d, c.dropNulls.result = .ok d ∧ t.of d = t.of c
  /-- The cut into chunks does not matter, nor does how the column came about. -/
  rechunk : ∀ d : Column k, d.Reachable → d.rows = c.rows → t.of d = t.of c
  ofRows : ∀ (name : String) (o : Options),
    ∃ d, (Column.ofRows name c.rows o).result = .ok d ∧ t.of d = t.of c
  /-- The totals of two parts make that of the column. -/
  split : ∀ n ≤ c.len, ∃ (first second : Column k) (x y : Option k.Value),
    (c.head n).result = .ok first ∧ (c.tail (c.len - n)).result = .ok second ∧
      t.of first = .ok x ∧ t.of second = .ok y ∧ t.of c = t.merge x y

/-- **Totals are exact modulo a power of two.** For the nine integer kinds, the sum and the product
of a reachable column are there exactly if some row has a value, and are the exact sum and product
of the values reduced into the range of the kind. They stay the same when the column is sorted, when
its rows are put in any order through a map, when nulls are dropped and when the rows are cut
otherwise; and wherever the column is split in two, the totals of the parts make the total, that of
a part without values being neutral. -/
theorem Reachable.totals_exactly (hc : c.Reachable) (hk : k.support = .integral) (t : Total) :
    TotalsExactly t c := by
  obtain ⟨ops, h⟩ := Kind.exists_wraps hk
  have hlen := hc.holds.len_eq
  -- a result with the rows in some order has the total of the column
  have hperm : ∀ {x : Traced (Column k)} {entries : List (Cell k)},
      x.Refines (Holds c.name c.options) (.ok entries) → entries.Perm c.rows →
      ∃ d, x.result = .ok d ∧ t.of d = t.of c := by
    rintro x entries ⟨d, hd, hholds⟩ hrows
    exact ⟨d, hd, hc.holds.total_eq_of_perm h hholds (hrows.filterMap id)⟩
  constructor
  case exact =>
    obtain ⟨x, hx, htotal⟩ := hc.holds.exists_isTotal h t
    exact ⟨x, hx, htotal.none_iff.trans hc.holds.filterMap_eq_nil_iff, htotal.key_eq⟩
  case sort =>
    intro hsmall ascending
    obtain ⟨d, hd, hholds⟩ := hc.holds.sort_eq (hlen ▸ hsmall) ascending
    exact hperm ⟨d, hd, hholds⟩ (c.sortsRows_sortedOrder ascending).perm_map_getD
  case select =>
    intro map invert hmap
    obtain ⟨entries, hentries, hrows⟩ :=
      Container.selectEntries_of_perm (hlen ▸ hmap.map some) invert
    have hselect := hc.holds.2.result_select map invert
    rw [hentries] at hselect
    exact hperm ((Container.refines_of_result hselect).map fun _ _ hd => ⟨rfl, hd⟩) hrows
  case selectByColumn =>
    intro map invert hreach hmap
    obtain ⟨entries, hentries, hrows⟩ := Container.selectEntries_of_perm (hlen ▸ hmap) invert
    have hselect := hc.holds.2.result_selectByColumn hreach.holds.2 invert
    rw [hentries] at hselect
    exact hperm ((Container.refines_of_result hselect).map fun _ _ hd => ⟨rfl, hd⟩) hrows
  case dropNulls =>
    obtain ⟨d, hd, hholds⟩ := refines_rebuild hc.holds (c.rows.filter Option.isSome)
    refine ⟨d, hd, hc.holds.total_eq_of_perm h hholds (.of_eq ?_)⟩
    rw [List.filterMap_filter]
    congr 1
    funext cell
    cases cell <;> rfl
  case rechunk =>
    intro d hd hrows
    exact hc.holds.total_eq_of_perm h hd.holds (.of_eq (congrArg (List.filterMap id) hrows))
  case ofRows =>
    intro name o
    obtain ⟨d, hd, hholds⟩ := refines_ofRows name c.rows o
    exact ⟨d, hd, hc.holds.total_eq_of_perm h hholds (.refl _)⟩
  case split =>
    intro n hn
    have hdrop : c.len - (c.len - n) = n := by omega
    obtain ⟨first, hfirst, hhead⟩ := refines_rebuild hc.holds (c.rows.take n)
    obtain ⟨second, hsecond, htail⟩ := refines_rebuild hc.holds (c.rows.drop n)
    obtain ⟨x, hx, htotal⟩ := hhead.exists_isTotal h t
    obtain ⟨y, hy, htotal'⟩ := htail.exists_isTotal h t
    obtain ⟨z, hz, hmerge⟩ := htotal.merge h htotal'
    obtain ⟨w, hw, hwhole⟩ := hc.holds.exists_isTotal h t
    rw [← List.filterMap_append, List.take_append_drop] at hmerge
    refine ⟨first, second, x, y, hfirst, ?_, hx, hy, ?_⟩
    · rw [Column.tail, hdrop]
      exact hsecond
    · rw [hz, hw, hwhole.unique h hmerge]

/-- A sum that wraps around on the way and comes out exact, its product, which is reduced to zero,
and a column of nulls. -/
theorem totals_exactly_of_bytes : ∃ c d : Column .int8,
    (ofRows "a" [some 100, none, some 100, some (-128)] (.withChunkRows .int8 2)).result = .ok c ∧
      (ofRows "b" [none, none, none] {}).result = .ok d ∧
      c.sum = .ok (some 72) ∧ c.product = .ok (some 0) ∧ d.sum = .ok none ∧
      TotalsExactly .sum c ∧ TotalsExactly .product c ∧ TotalsExactly .sum d := by
  obtain ⟨c, hc, hsum, hproduct⟩ : ∃ c : Column .int8,
      (ofRows "a" [some 100, none, some 100, some (-128)] (.withChunkRows .int8 2)).result = .ok c ∧
        c.sum = .ok (some 72) ∧ c.product = .ok (some 0) := ⟨_, rfl, rfl, rfl⟩
  obtain ⟨d, hd, hnone⟩ : ∃ d : Column .int8,
      (ofRows "b" [none, none, none] {}).result = .ok d ∧ d.sum = .ok none := ⟨_, rfl, rfl⟩
  have hreach : c.Reachable := .ofRows "a" _ _ hc
  have hreach' : d.Reachable := .ofRows "b" _ _ hd
  exact ⟨c, d, hc, hd, hsum, hproduct, hnone, hreach.totals_exactly rfl .sum,
    hreach.totals_exactly rfl .product, hreach'.totals_exactly rfl .sum⟩

end Columnar.Column
