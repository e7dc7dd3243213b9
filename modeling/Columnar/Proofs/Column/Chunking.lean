import Columnar.Column.Group
import Columnar.Column.Stats
import Columnar.Proofs.Column.Running
/-!
# How rows are cut into chunks

The options of a column say how many rows go into a chunk, and with that how every operation loops
over them. Nothing of it is seen in the results: columns built from one list of rows under different
options give the same rows, or the same error, under every operation that takes one column, and the
same values under every reduction. Masks and index maps are columns too, and may be cut into chunks
in yet other ways.
-/

namespace Columnar.Column

/-- The operations that make a new column from the rows of a column, without pairing its chunks with
those of another one. -/
inductive Derivation (k : Kind) : Kind → Type
  | binaryScalar (op : BinaryOp) (scalar : k.Value) (reverse : Bool) : Derivation k k
  | shift (op : ShiftOp) (amount : Int32) : Derivation k k
  | compareScalar (op : Comparison) (scalar : k.Value) : Derivation k .bool
  | clip (lower upper : k.Value) : Derivation k k
  | fillNulls (v : k.Value) : Derivation k k
  | filter (lower upper : k.Value) : Derivation k k
  | filterByMask (mask : Column .bool) : Derivation k k
  | dropNulls : Derivation k k
  | isNullMask : Derivation k .bool
  | apply (f : Cell k → Cell k) : Derivation k k
  | head (count : ℕ) : Derivation k k
  | tail (count : ℕ) : Derivation k k
  | argsort (ascending : Bool) : Derivation k .uint64
  | sort (ascending : Bool) : Derivation k k
  | cumulative (a : Aggregate) : Derivation k k
  | select (map : Array ℕ) (invert : Bool) : Derivation k k
  | selectByColumn (map : Column .uint64) (invert : Bool) : Derivation k k

variable {k l : Kind} {name name' : String} {o o' : Options} {rows : List (Cell k)} {c d : Column k}

namespace Derivation

/-- Carry out a derivation. -/
def run {l : Kind} : Derivation k l → Column k → Traced (Column l)
  | binaryScalar op scalar reverse, c => c.binaryScalar op scalar reverse
  | shift op amount, c => c.shift op amount
  | compareScalar op scalar, c => c.compareScalar op scalar
  | clip lower upper, c => c.clip lower upper
  | fillNulls v, c => c.fillNulls v
  | filter lower upper, c => c.filter lower upper
  | filterByMask mask, c => c.filterByMask mask
  | dropNulls, c => c.dropNulls
  | isNullMask, c => c.isNullMask
  | apply f, c => c.apply f
  | head count, c => c.head count
  | tail count, c => c.tail count
  | argsort ascending, c => c.argsort ascending
  | sort ascending, c => c.sort ascending
  | cumulative a, c => c.cumulative a
  | select map invert, c => c.select map invert
  | selectByColumn map invert, c => c.selectByColumn map invert

/-- Two derivations differ in nothing but the chunks of a mask or an index map. -/
inductive Rechunked : {l : Kind} → Derivation k l → Derivation k l → Prop
  | same {l : Kind} (q : Derivation k l) : Rechunked q q
  | filterByMask {m m' : Column .bool} : m.container.WellFormed → m'.container.WellFormed →
    m.rows = m'.rows → Rechunked (.filterByMask m) (.filterByMask m')
  | selectByColumn {m m' : Column .uint64} (invert : Bool) : m.container.WellFormed →
    m'.container.WellFormed → m.rows = m'.rows →
    Rechunked (.selectByColumn m invert) (.selectByColumn m' invert)

end Derivation

/-! ### Rows of a result -/

lemma refines_filter (h : c.Holds name o rows) (lower upper : k.Value) :
    (c.filter lower upper).Refines (Holds name o) (do
      check k (.comparison .greaterOrEqual)
      return rows.filter fun
        | some v =>
          Comparison.lessOrEqual.evaluate lower v && Comparison.lessOrEqual.evaluate v upper
        | none => false) := by
  rw [Column.filter, h.rows_eq]
  exact Traced.Refines.ofExcept_bind fun _ _ => refines_rebuild h _

/-- The order of the rows is a matter of the rows. -/
lemma exists_sortedOrder (rows : List (Cell k)) (ascending : Bool) : ∃ order : List ℕ,
    ∀ (name : String) (o : Options) (c : Column k), c.Holds name o rows →
      c.sortedOrder ascending = order := by
  obtain ⟨c₀, -, h₀⟩ := refines_ofRows "" rows {}
  refine ⟨c₀.sortedOrder ascending, fun name o c h => ?_⟩
  rw [sortedOrder, sortedOrder, h.rows_eq, h₀.rows_eq]

namespace Derivation

/-- What a derivation gives is a matter of the rows. -/
lemma exists_spec (q : Derivation k l) (rows : List (Cell k)) :
    ∃ spec : Except ColumnError (List (Cell l)), ∀ (name : String) (o : Options) (c : Column k),
      c.Holds name o rows → (q.run c).Refines (Holds name o) spec := by
  cases q with
  | binaryScalar op scalar reverse =>
    exact ⟨_, fun _ _ c h => refines_binaryScalar h op scalar reverse⟩
  | shift op amount => exact ⟨_, fun _ _ c h => refines_shift h op amount⟩
  | compareScalar op scalar => exact ⟨_, fun _ _ c h => refines_compareScalar h op scalar⟩
  | clip lower upper => exact ⟨_, fun _ _ c h => refines_clip h lower upper⟩
  | fillNulls v => exact ⟨_, fun _ _ c h => refines_fillNulls h v⟩
  | filter lower upper => exact ⟨_, fun _ _ c h => refines_filter h lower upper⟩
  | filterByMask mask => exact ⟨_, fun _ _ c h => refines_filterByMask h mask⟩
  | dropNulls => exact ⟨_, fun _ _ c h => refines_rebuild_rows h (List.filter Option.isSome)⟩
  | isNullMask =>
    exact ⟨_, fun _ _ c h =>
      refines_rebuild_rows (l := .bool) h (List.map fun cell => some cell.isNone)⟩
  | apply f => exact ⟨_, fun _ _ c h => refines_rebuild_rows h (List.map f)⟩
  | head count => exact ⟨_, fun _ _ c h => refines_rebuild_rows h (List.take count)⟩
  | tail count =>
    refine ⟨.ok (rows.drop (rows.length - count)), fun _ _ c h => ?_⟩
    rw [run, Column.tail, h.len_eq]
    exact refines_rebuild_rows h (List.drop (rows.length - count))
  | argsort ascending =>
    obtain ⟨order, horder⟩ := exists_sortedOrder rows ascending
    refine ⟨.ok (order.map fun row => some (UInt64.ofNat row)), fun name o c h => ?_⟩
    rw [run, ← horder name o c h]
    exact refines_argsort h ascending
  | sort ascending =>
    obtain ⟨order, horder⟩ := exists_sortedOrder rows ascending
    let entries : List (Cell .uint64) := order.map fun row => some (UInt64.ofNat row)
    refine ⟨Container.selectRows rows entries.length false (Container.entryAt entries),
      fun name o c h => ?_⟩
    have hsort := refines_sort h ascending
    rw [horder name o c h] at hsort
    exact hsort
  | cumulative a => exact ⟨_, fun _ _ c h => refines_cumulative h a⟩
  | select map invert => exact ⟨_, fun _ _ c h => refines_select h map invert⟩
  | selectByColumn map invert =>
    exact ⟨_, fun _ _ c h =>
      (Container.refines_selectBy h.2 map.len invert _).map fun _ _ hd => ⟨h.1, hd⟩⟩

/-- A derivation gives the same rows or the same error on columns of the same rows. -/
theorem map_rows_run {q q' : Derivation k l} (hq : q.Rechunked q') (hc : c.Holds name o rows)
    (hd : d.Holds name' o' rows) :
    (q.run c).result.map Column.rows = (q'.run d).result.map Column.rows := by
  -- two refinements of one specification on rows
  have hspec : ∀ {l : Kind} {x y : Traced (Column l)} {spec : Except ColumnError (List (Cell l))},
      x.Refines (Holds name o) spec → y.Refines (Holds name' o') spec →
      x.result.map Column.rows = y.result.map Column.rows := by
    intro l x y spec hx hy
    rw [hx.result_map fun _ _ h => h.rows_eq, hy.result_map fun _ _ h => h.rows_eq]
  cases hq with
  | @filterByMask m m' hm hm' hrows =>
    have hlen := (holds_of_wellFormed hm).len_eq
    rw [hrows, ← (holds_of_wellFormed hm').len_eq] at hlen
    have hmask := refines_filterByMask hc m
    rw [hlen, hrows] at hmask
    exact hspec hmask (refines_filterByMask hd m')
  | selectByColumn invert hm hm' hrows =>
    have hmap := holds_of_wellFormed hm
    rw [hrows] at hmap
    exact hspec (refines_selectByColumn hc hmap.2 invert)
      (refines_selectByColumn hd (holds_of_wellFormed hm').2 invert)
  | same =>
    obtain ⟨spec, hrun⟩ := q.exists_spec rows
    exact hspec (hrun name o c hc) (hrun name' o' d hd)

end Derivation

/-! ### Values of a column -/

/-- No derivation and no reduction tells the columns apart, names and layouts of the results
aside. -/
structure AnswersAs (c d : Column k) : Prop where
  derive : ∀ {l : Kind} (q q' : Derivation k l), q.Rechunked q' →
    (q.run c).result.map Column.rows = (q'.run d).result.map Column.rows
  sum : c.sum = d.sum
  product : c.product = d.product
  min : c.min = d.min
  max : c.max = d.max
  mean : c.mean = d.mean
  stats : c.stats.result = d.stats.result
  groups : c.groups = d.groups

lemma Holds.answersAs (hc : c.Holds name o rows) (hd : d.Holds name' o' rows) : c.AnswersAs d := by
  have hvalues : c.container.values = d.container.values := by
    rw [Container.values, Container.values, hc.2.rows_eq, hd.2.rows_eq]
  have hreduce : ∀ a, c.reduce a = d.reduce a := by
    intro a
    rw [reduce, reduce, values, values, hvalues]
  constructor
  case derive => exact fun q q' hq => Derivation.map_rows_run hq hc hd
  -- Reductions see the values only, the statistics also the two counts, and groups the rows.
  case sum => exact hreduce .sum
  case product => exact hreduce .product
  case min => exact hreduce .min
  case max => exact hreduce .max
  case mean => rw [mean, mean, values, values, hvalues]
  case stats =>
    simp only [stats, Stats.ofContainer, Stats.countDistinct, hvalues, hc.2.len_eq, hd.2.len_eq,
      hc.2.nullCount_eq, hd.2.nullCount_eq]
  case groups => rw [groups, groups, hc.rows_eq, hd.rows_eq]

/-- Chunking is invisible: a list of rows can be made a column under any two options, and the two
columns give the same answers. -/
theorem ofRows_answersAs (name name' : String) (rows : List (Cell k)) (o o' : Options) :
    ∃ c d : Column k, (ofRows name rows o).result = .ok c ∧ (ofRows name' rows o').result = .ok d ∧
      c.AnswersAs d := by
  obtain ⟨c, hc, hholds⟩ := refines_ofRows name rows o
  obtain ⟨d, hd, hholds'⟩ := refines_ofRows name' rows o'
  exact ⟨c, d, hc, hd, hholds.answersAs hholds'⟩

end Columnar.Column
