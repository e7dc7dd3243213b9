import Columnar.Proofs.Column.Binary
import Columnar.Proofs.Column.DistinctCount
import Columnar.Proofs.Column.Running
import Columnar.Proofs.Column.Sorting
/-!
# Summaries and reductions

The statistics of a column are taken in one pass over its values, which carries both bounds and the
sum; its reductions take one of them each. They agree: what the statistics report is what the
reductions give, and nothing where a reduction has no value or is not legal for the kind. The
extremes are the values that a sort puts first: of the rows with the least or the greatest key, the
first one.
-/

namespace Columnar

variable {k : Kind}

/-! ### The pass over the values -/

namespace Stats

/-- What the pass over some values carries: their number, their sum and their extremes. -/
structure Pass.Covers (p : Pass k) (values : List k.Value) : Prop where
  valid : p.valid = values.length
  sum : p.sum = values.foldl (fun sum v => sum + Kind.Value.toFloat v) 0.0
  min : Column.fold .min values = .ok (p.bounds.map Prod.fst)
  max : Column.fold .max values = .ok (p.bounds.map Prod.snd)

/-- One more value is counted, added up and compared with both bounds. -/
lemma Pass.Covers.add {p : Pass k} {values : List k.Value} (h : p.Covers values) (v : k.Value) :
    (p.add v).Covers (values ++ [v]) := by
  obtain ⟨valid, sum, bounds⟩ := p
  constructor
  case valid =>
    rw [List.length_append, ← h.valid]
    rfl
  case sum =>
    rw [List.foldl_append, ← h.sum]
    rfl
  -- The first value is both bounds; every other one is compared with them.
  case min =>
    rw [Column.fold_concat, h.min]
    rcases bounds with _ | ⟨lo, hi⟩ <;> rfl
  case max =>
    rw [Column.fold_concat, h.max]
    rcases bounds with _ | ⟨lo, hi⟩ <;> rfl

/-- The pass over some values, by induction on the values from their end. -/
lemma covers_foldl_add (values : List k.Value) :
    (values.foldl Pass.add ({} : Pass k)).Covers values := by
  induction values using List.reverseRecOn with
  | nil => exact ⟨rfl, rfl, rfl, rfl⟩
  | append_singleton values v ih =>
    rw [List.foldl_append]
    exact ih.add v

end Stats

namespace Column

variable {ascending : Bool} {rows : List (Cell k)} {v w : k.Value} {i j : ℕ} {c : Column k}

/-! ### The first row in order -/

/-- Of all rows with values, row `i` comes first when they are sorted, and `v` is its value. -/
def ComesFirst (ascending : Bool) (rows : List (Cell k)) (i : ℕ) (v : k.Value) : Prop :=
  rows[i]? = some (some v) ∧ ∀ j w, rows[j]? = some (some w) → j ≠ i →
    RowBefore ascending (some v, i) (some w, j)

namespace ComesFirst

/-- No two rows come first. -/
lemma unique (hv : ComesFirst ascending rows i v) (hw : ComesFirst ascending rows j w) : v = w := by
  by_cases hij : j = i
  · subst hij
    exact Option.some.inj (Option.some.inj (hv.1.symm.trans hw.1))
  · exact absurd (hw.2 i v hv.1 (Ne.symm hij)) (hv.2 j w hw.1 hij).asymm

lemma concat_none (h : ComesFirst ascending rows i v) :
    ComesFirst ascending (rows ++ [none]) i v := by
  refine ⟨getElem?_concat_eq_some_iff.2 (.inl h.1), fun j w hj hne => ?_⟩
  obtain hj | ⟨-, ⟨⟩⟩ := getElem?_concat_eq_some_iff.1 hj
  exact h.2 j w hj hne

/-- A row after the first one has to have a key before its key to come before it. -/
lemma concat_of_not_keyBefore (h : ComesFirst ascending rows i v)
    (hkey : ¬ KeyBefore ascending (Kind.Value.key w) (Kind.Value.key v)) :
    ComesFirst ascending (rows ++ [some w]) i v := by
  refine ⟨getElem?_concat_eq_some_iff.2 (.inl h.1), fun j x hj hne => ?_⟩
  obtain hj | ⟨rfl, heq⟩ := getElem?_concat_eq_some_iff.1 hj
  · exact h.2 j x hj hne
  · obtain rfl := Option.some.inj heq
    have hlt := (List.getElem?_eq_some_iff.1 h.1).1
    rw [KeyBefore] at hkey
    rw [RowBefore, KeyBefore]
    split_ifs at hkey ⊢ <;> omega

/-- A row with a key before that of the first row comes before all rows. -/
lemma concat_of_keyBefore (h : ComesFirst ascending rows i v)
    (hkey : KeyBefore ascending (Kind.Value.key w) (Kind.Value.key v)) :
    ComesFirst ascending (rows ++ [some w]) rows.length w := by
  refine ⟨getElem?_concat_eq_some_iff.2 (.inr ⟨rfl, rfl⟩), fun j x hj hne => .inl ?_⟩
  obtain hj | ⟨rfl, -⟩ := getElem?_concat_eq_some_iff.1 hj
  · by_cases hij : j = i
    · subst hij
      obtain rfl : v = x := Option.some.inj (Option.some.inj (h.1.symm.trans hj))
      exact hkey
    · have hbefore := h.2 j x hj hij
      rw [RowBefore] at hbefore
      rw [KeyBefore] at hkey hbefore ⊢
      split_ifs at hkey hbefore ⊢ <;> omega
  · exact absurd rfl hne

/-- A row after nulls alone comes first. -/
lemma concat_of_forall_ne (h : ∀ v, some v ∉ rows) (ascending : Bool) (w : k.Value) :
    ComesFirst ascending (rows ++ [some w]) rows.length w := by
  refine ⟨getElem?_concat_eq_some_iff.2 (.inr ⟨rfl, rfl⟩), fun j x hj hne => ?_⟩
  obtain hj | ⟨rfl, -⟩ := getElem?_concat_eq_some_iff.1 hj
  · exact absurd (List.mem_of_getElem? hj) (h x)
  · exact absurd rfl hne

end ComesFirst

/-! ### Extremes -/

/-- The extreme that a sort in a direction puts first. -/
def Aggregate.extreme : Bool → Aggregate
  | true => .min
  | false => .max

/-- A value takes the place of an extreme exactly if its key comes before that of the extreme. -/
lemma step_extreme (ascending : Bool) (acc v : k.Value) :
    KeyBefore ascending (Kind.Value.key v) (Kind.Value.key acc) ∧
        (Aggregate.extreme ascending).step acc v = .ok v ∨
      ¬ KeyBefore ascending (Kind.Value.key v) (Kind.Value.key acc) ∧
        (Aggregate.extreme ascending).step acc v = .ok acc := by
  cases ascending
  · by_cases hkey : Kind.Value.key acc < Kind.Value.key v
    · refine .inl ⟨hkey, ?_⟩
      simp [Aggregate.extreme, Aggregate.step, Kind.Value.order, compare_gt_iff_gt.2 hkey]
    · refine .inr ⟨hkey, ?_⟩
      simp [Aggregate.extreme, Aggregate.step, Kind.Value.order, compare_gt_iff_gt, hkey]
  · by_cases hkey : Kind.Value.key v < Kind.Value.key acc
    · refine .inl ⟨hkey, ?_⟩
      simp [Aggregate.extreme, Aggregate.step, Kind.Value.order, compare_lt_iff_lt.2 hkey]
    · refine .inr ⟨hkey, ?_⟩
      simp [Aggregate.extreme, Aggregate.step, Kind.Value.order, compare_lt_iff_lt, hkey]

/-- The value of the row that comes first, if there is a row with a value. -/
structure IsFirst (ascending : Bool) (rows : List (Cell k)) (first : Option k.Value) : Prop where
  some_iff : ∀ v, first = some v ↔ ∃ i, ComesFirst ascending rows i v
  none_iff : first = none ↔ ∀ v, some v ∉ rows

namespace IsFirst

variable {first : Option k.Value}

/-- One direction for each case is enough, since no two rows come first. -/
lemma of_forall (hsome : ∀ v, first = some v → ∃ i, ComesFirst ascending rows i v)
    (hnone : first = none → ∀ v, some v ∉ rows) : IsFirst ascending rows first := by
  refine ⟨fun v => ⟨hsome v, ?_⟩, hnone, fun hno => ?_⟩
  · rintro ⟨i, hi⟩
    rcases first with _ | w
    · exact absurd (List.mem_of_getElem? hi.1) (hnone rfl v)
    · obtain ⟨j, hj⟩ := hsome w rfl
      rw [hj.unique hi]
  · rcases first with _ | w
    · rfl
    · obtain ⟨j, hj⟩ := hsome w rfl
      exact absurd (List.mem_of_getElem? hj.1) (hno w)

lemma concat_none (h : IsFirst ascending rows first) :
    IsFirst ascending (rows ++ [none]) first := by
  refine of_forall (fun v hv => ?_) fun hv => by simpa using h.none_iff.1 hv
  obtain ⟨i, hi⟩ := (h.some_iff v).1 hv
  exact ⟨i, hi.concat_none⟩

/-- The extreme with one more value is that of the rows with one more. -/
lemma concat_some (h : IsFirst ascending rows first) (w : k.Value) :
    ∃ next, (Aggregate.extreme ascending).extend first w = .ok next ∧
      IsFirst ascending (rows ++ [some w]) (some next) := by
  have hfirst : ∀ {i next}, ComesFirst ascending (rows ++ [some w]) i next →
      IsFirst ascending (rows ++ [some w]) (some next) := fun {i next} hi =>
    of_forall (fun v hv => ⟨i, Option.some.inj hv ▸ hi⟩) nofun
  rcases first with _ | v
  · exact ⟨w, rfl, hfirst (.concat_of_forall_ne (h.none_iff.1 rfl) ascending w)⟩
  · obtain ⟨i, hi⟩ := (h.some_iff v).1 rfl
    obtain ⟨hkey, hstep⟩ | ⟨hkey, hstep⟩ := step_extreme ascending v w
    · exact ⟨w, hstep, hfirst (hi.concat_of_keyBefore hkey)⟩
    · exact ⟨v, hstep, hfirst (hi.concat_of_not_keyBefore hkey)⟩

end IsFirst

/-- An extreme is the value of the row that comes first; by induction on the rows from their end. -/
theorem exists_fold_extreme (ascending : Bool) (rows : List (Cell k)) :
    ∃ first, fold (.extreme ascending) (rows.filterMap id) = .ok first ∧
      IsFirst ascending rows first := by
  induction rows using List.reverseRecOn with
  | nil => exact ⟨none, rfl, .of_forall nofun (by simp)⟩
  | append_singleton rows cell ih =>
    obtain ⟨first, hfold, hfirst⟩ := ih
    rcases cell with _ | w
    · exact ⟨first, by simpa using hfold, hfirst.concat_none⟩
    · obtain ⟨next, hnext, hisFirst⟩ := hfirst.concat_some w
      refine ⟨some next, ?_, hisFirst⟩
      rw [filterMap_concat_some, fold_concat, hfold]
      exact congrArg (Except.map some) hnext

/-! ### Statistics and reductions -/

/-- What is reported for a reduction that needs an operator: its value, if there is one, and nothing
if there is none or the operator is not legal for the kind. -/
inductive Reports {α β : Type} (k : Kind) (op : Operator) (f : α → β) :
    Except ColumnError (Option α) → Option β → Prop
  | value (a : α) : Reports k op f (.ok (some a)) (some (f a))
  | empty : Reports k op f (.ok none) none
  | illegal : Reports k op f (.error (.unsupportedOperation k op)) none

/-- The statistics of a column agree with its reductions. -/
structure Summarizes (c : Column k) (s : Stats) : Prop where
  kind_eq : s.kind = k
  len_eq : s.len = c.len
  nullCount_eq : s.nullCount = c.nullCount
  /-- The null count is the one that a scan of the masks finds. -/
  scanned : c.nullCount = c.container.scannedNullCount
  min : Reports k (.comparison .less) (Scalar.value k) c.min s.min
  max : Reports k (.comparison .less) (Scalar.value k) c.max s.max
  mean : Reports k (.binary (.arithmetic .add)) id c.mean s.mean
  /-- The minimum is the value of the first row with the least key. -/
  least : k.support.ordering → ∃ first, c.min = .ok first ∧ IsFirst true c.rows first
  /-- The maximum is the value of the first row with the greatest key. -/
  greatest : k.support.ordering → ∃ first, c.max = .ok first ∧ IsFirst false c.rows first

lemma reduce_of_allows {a : Aggregate} (hallows : k.support.allows a.operator) :
    c.reduce a = fold a c.values := by
  rw [reduce, check_eq_ok hallows]
  rfl

lemma reduce_of_not_allows {a : Aggregate} (hallows : ¬ k.support.allows a.operator) :
    c.reduce a = .error (.unsupportedOperation k a.operator) := by
  rw [reduce, check_eq_error hallows]
  rfl

/-- A bound is reported for an aggregate that needs an order. -/
lemma reports_bound {a : Aggregate} {bounds : Option (k.Value × k.Value)}
    {bound : k.Value × k.Value → k.Value} (ha : a.operator = .comparison .less)
    (hfold : fold a c.values = .ok (bounds.map bound)) :
    Reports k (.comparison .less) (Scalar.value k) (c.reduce a)
      ((if k.support.ordering then bounds else none).map fun b => .value k (bound b)) := by
  have hallows : k.support.allows a.operator = k.support.ordering := by
    rw [ha]
    rfl
  by_cases hordering : k.support.ordering
  · rw [reduce_of_allows (hallows ▸ hordering), hfold, if_pos hordering]
    rcases bounds with _ | b
    · exact .empty
    · exact .value _
  · rw [reduce_of_not_allows (hallows ▸ hordering), ha, if_neg hordering]
    exact .illegal

/-- The mean is reported from the number and the sum of the values. -/
lemma reports_mean {p : Stats.Pass k} (h : p.Covers c.values) :
    Reports k (.binary (.arithmetic .add)) id c.mean
      (if 0 < p.valid && k.support.arithmetic then some (p.sum / p.valid.toUInt64.toFloat)
        else none) := by
  have hallows : k.support.allows (.binary (.arithmetic .add)) = k.support.arithmetic := rfl
  by_cases harithmetic : k.support.arithmetic
  · have hmean : c.mean = .ok (meanOf c.values) := by
      rw [mean, check_eq_ok (hallows ▸ harithmetic)]
      rfl
    rw [hmean, meanOf, harithmetic, h.valid, h.sum]
    rcases c.values with _ | ⟨v, values⟩
    · exact .empty
    · exact .value _
  · have hmean : c.mean = .error (.unsupportedOperation k (.binary (.arithmetic .add))) := by
      rw [mean, check_eq_error (hallows ▸ harithmetic)]
      rfl
    rw [hmean, Bool.eq_false_of_not_eq_true harithmetic, Bool.and_false]
    exact .illegal

/-- An extreme of a kind with an order is the value of the row that comes first. -/
lemma exists_extreme (hordering : k.support.ordering) (c : Column k) (ascending : Bool) :
    ∃ first, c.reduce (.extreme ascending) = .ok first ∧ IsFirst ascending c.rows first := by
  have hallows : k.support.allows (Aggregate.extreme ascending).operator := by
    cases ascending <;> exact hordering
  rw [reduce_of_allows hallows]
  exact exists_fold_extreme ascending c.rows

/-- **Statistics agree with the reductions.** The statistics of a column give its length and its
null count, which is the one that a scan finds. They report the extremes and the mean that the
reductions give, and nothing exactly if a reduction has no value or is not legal for the kind. The
extremes are the values of the first row with the least and of the first row with the greatest
key. -/
theorem Reachable.stats_summarize (h : c.Reachable) :
    ∃ s, c.stats.result = .ok s ∧ c.Summarizes s := by
  obtain ⟨s, counter, hs, -⟩ := c.exists_stats
  refine ⟨s, hs, ?_⟩
  rw [stats, Stats.ofContainer, Traced.result_bind] at hs
  rcases hcount : (Stats.countDistinct c.container).result with e | distinct
  · rw [hcount] at hs
    cases hs
  rw [hcount] at hs
  obtain rfl := Except.ok.inj hs
  have hpass := Stats.covers_foldl_add c.values
  obtain ⟨slots, hstores, -⟩ := h.holds.2
  refine ⟨rfl, rfl, rfl, ?_, reports_bound rfl hpass.min, reports_bound rfl hpass.max,
    reports_mean hpass, fun hordering => exists_extreme hordering c true,
    fun hordering => exists_extreme hordering c false⟩
  exact hstores.nullCount_eq.trans (Container.Stores.scannedNullCount_of_packed hstores.packed).symm

/-- The least value occurs twice, after a null and in two chunks. Booleans have neither an order nor
a mean. -/
theorem stats_summarize_of_numbers_and_booleans :
    (∃ (c : Column .int32) (s : Stats),
      (ofRows "a" [some 4, none, some 1, some 7, some 1] (.withChunkRows .int32 2)).result = .ok c ∧
        c.stats.result = .ok s ∧ c.Summarizes s ∧ c.min = .ok (some 1) ∧ c.max = .ok (some 7)) ∧
    ∃ (c : Column .bool) (s : Stats),
      (ofRows "b" [some true, none] {}).result = .ok c ∧ c.stats.result = .ok s ∧
        c.Summarizes s ∧
        c.min = .error (.unsupportedOperation .bool (.comparison .less)) ∧
        c.mean = .error (.unsupportedOperation .bool (.binary (.arithmetic .add))) := by
  obtain ⟨c, hc, hmin, hmax⟩ : ∃ c : Column .int32,
      (ofRows "a" [some 4, none, some 1, some 7, some 1] (.withChunkRows .int32 2)).result = .ok c ∧
        c.min = .ok (some 1) ∧ c.max = .ok (some 7) := ⟨_, rfl, rfl, rfl⟩
  obtain ⟨d, hd, hillegal⟩ : ∃ d : Column .bool,
      (ofRows "b" [some true, none] {}).result = .ok d ∧
        d.min = .error (.unsupportedOperation .bool (.comparison .less)) ∧
        d.mean = .error (.unsupportedOperation .bool (.binary (.arithmetic .add))) :=
    ⟨_, rfl, rfl, rfl⟩
  obtain ⟨s, hs, hsummarizes⟩ := Reachable.stats_summarize (.ofRows "a" _ _ hc)
  obtain ⟨t, ht, hsummarizes'⟩ := Reachable.stats_summarize (.ofRows "b" _ _ hd)
  exact ⟨⟨c, s, hc, hs, hsummarizes, hmin, hmax⟩, d, t, hd, ht, hsummarizes', hillegal⟩

end Column

end Columnar
