import Columnar.Proofs.Column.Rows
/-!
# Running aggregates

The running form of an aggregate goes through all rows, nulls included, and carries the aggregate of
the values that it has passed. The aggregate of a whole column is taken over its values alone. The
two loops agree at every row: the running aggregate at a row with a value is the aggregate of the
rows up to there, and as each of them stops at the first error, one fails where the other does.
-/

namespace Columnar.Column

variable {k : Kind} {name : String} {o : Options} {a : Aggregate} {rows out : List (Cell k)}
  {c d : Column k}

/-! ### The aggregate of a list -/

/-- The aggregate of an earlier result, if there is one, and one more value. -/
def Aggregate.extend (a : Aggregate) (acc : Option k.Value) (v : k.Value) :
    Except ColumnError k.Value :=
  match acc with
  | none => .ok v
  | some acc => a.step acc v

/-- The aggregate of some values and one more after them. -/
lemma fold_concat (a : Aggregate) (vs : List k.Value) (v : k.Value) :
    fold a (vs ++ [v]) = fold a vs >>= fun acc => (a.extend acc v).map some := by
  cases vs with
  | nil => rfl
  | cons w vs =>
    rw [List.cons_append, fold, fold, List.foldlM_append]
    rcases vs.foldlM a.step w with e | acc
    · rfl
    · show ([v].foldlM a.step acc >>= fun next => .ok (some next)) = (a.step acc v).map some
      rw [List.foldlM_cons]
      rcases a.step acc v with e | next <;> rfl

lemma fold_eq_none_iff {vs : List k.Value} : fold a vs = .ok none ↔ vs = [] := by
  cases vs with
  | nil => simp [fold]
  | cons v vs =>
    rw [fold]
    rcases vs.foldlM a.step v with e | acc <;> simp [bind, Except.bind, pure, Except.pure]

lemma filterMap_concat_some (rows : List (Cell k)) (v : k.Value) :
    (rows ++ [some v]).filterMap id = rows.filterMap id ++ [v] := by
  rw [List.filterMap_append]
  rfl

/-! ### The running aggregate of a list -/

/-- The running aggregates of some rows: as many as there are rows, null where these are, and
elsewhere the aggregate of the values up to there. -/
structure PrefixAggregates (a : Aggregate) (rows out : List (Cell k)) : Prop where
  length_eq : out.length = rows.length
  null_iff : ∀ i : ℕ, out[i]? = some none ↔ rows[i]? = some none
  value : ∀ (i : ℕ) v, out[i]? = some (some v) →
    fold a ((rows.take (i + 1)).filterMap id) = .ok (some v)

namespace PrefixAggregates

lemma nil (a : Aggregate) : PrefixAggregates a ([] : List (Cell k)) [] := ⟨rfl, by simp, by simp⟩

/-- One more row, with the aggregate of all rows up to it unless it is null. -/
lemma concat (h : PrefixAggregates a rows out) {x y : Cell k} (hnull : y = none ↔ x = none)
    (hvalue : ∀ v, y = some v → fold a ((rows ++ [x]).filterMap id) = .ok (some v)) :
    PrefixAggregates a (rows ++ [x]) (out ++ [y]) := by
  refine ⟨by simp [h.length_eq], fun i => ?_, fun i v hi => ?_⟩
  · rw [getElem?_concat_eq_some_iff, getElem?_concat_eq_some_iff, h.null_iff, h.length_eq, hnull]
  · rw [getElem?_concat_eq_some_iff, h.length_eq] at hi
    rcases hi with hi | ⟨rfl, hv⟩
    · have hlt : i < rows.length := h.length_eq ▸ (List.getElem?_eq_some_iff.1 hi).1
      rw [List.take_append_of_le_length hlt]
      exact h.value i v hi
    · rw [List.take_of_length_le (by simp)]
      exact hvalue v hv

end PrefixAggregates

/-- What the loop keeps: the aggregate of the rows that it has passed, and in reverse what it has
put out for them. -/
structure RunsOver (a : Aggregate) (rows : List (Cell k)) (s : Cell k × List (Cell k))
    (acc : Option k.Value) : Prop where
  carried : s.1 = acc
  aggregate : fold a (rows.filterMap id) = .ok acc
  prefixes : PrefixAggregates a rows s.2.reverse
  /-- The last value that was put out is the one that is carried. -/
  last : (s.2.reverse.filterMap id).getLast? = acc

/-- A null is put out as it is, and the aggregate stays what it was. -/
lemma RunsOver.concat_none {s : Cell k × List (Cell k)} {acc : Option k.Value}
    (h : RunsOver a rows s acc) : RunsOver a (rows ++ [none]) (s.1, none :: s.2) acc := by
  refine ⟨h.carried, by simpa using h.aggregate, ?_, by simpa using h.last⟩
  rw [List.reverse_cons]
  exact h.prefixes.concat Iff.rfl nofun

/-- The aggregate with one more value is put out and carried on. -/
lemma RunsOver.concat_some {s : Cell k × List (Cell k)} {acc : Option k.Value} {v next : k.Value}
    (h : RunsOver a rows s acc) (hnext : a.extend acc v = .ok next) :
    RunsOver a (rows ++ [some v]) (some next, some next :: s.2) (some next) := by
  have hfold : fold a ((rows ++ [some v]).filterMap id) = .ok (some next) := by
    rw [filterMap_concat_some, fold_concat, h.aggregate]
    exact congrArg (Except.map some) hnext
  refine ⟨rfl, hfold, ?_, ?_⟩
  · rw [List.reverse_cons]
    exact h.prefixes.concat (by simp) fun w hw => hw ▸ hfold
  · rw [List.reverse_cons, filterMap_concat_some]
    exact List.getLast?_concat

/-- One step of the loop fails where the aggregate of one more row does, or keeps what is kept. -/
lemma RunsOver.agree_runningStep {s : Cell k × List (Cell k)} {acc : Option k.Value}
    (h : RunsOver a rows s acc) (cell : Cell k) : Agree (RunsOver a (rows ++ [cell]))
      (runningStep a s cell) (fold a ((rows ++ [cell]).filterMap id)) := by
  obtain ⟨carried, done⟩ := s
  obtain rfl : carried = acc := h.carried
  rcases cell with _ | v
  · rw [h.concat_none.aggregate]
    exact .ok h.concat_none
  · have hstep : runningStep a (carried, done) (some v)
        = (a.extend carried v).map fun next => (some next, some next :: done) := by
      rcases carried with _ | acc
      · rfl
      · show (a.step acc v >>= fun next => .ok (some next, some next :: done))
          = (a.step acc v).map _
        rcases a.step acc v with e | next <;> rfl
    rcases hnext : a.extend carried v with e | next
    · rw [hstep, hnext, filterMap_concat_some, fold_concat, h.aggregate]
      show Agree _ _ ((a.extend carried v).map some)
      rw [hnext]
      exact .error e
    · have hkeeps := h.concat_some hnext
      rw [hstep, hnext, hkeeps.aggregate]
      exact .ok hkeeps

/-- The loop over the rows and the aggregate of their values fail with the same error, or the loop
ends with the aggregate; by induction on the rows from their end. -/
theorem agree_foldlM_runningStep (a : Aggregate) (rows : List (Cell k)) :
    Agree (RunsOver a rows) (rows.foldlM (runningStep a) (none, []))
      (fold a (rows.filterMap id)) := by
  induction rows using List.reverseRecOn with
  | nil => exact .ok ⟨rfl, rfl, .nil a, rfl⟩
  | append_singleton rows cell ih =>
    rw [List.foldlM_append]
    generalize hrun : rows.foldlM (runningStep a) (none, []) = run at ih
    generalize hfold : fold a (rows.filterMap id) = whole at ih
    cases ih with
    | error e =>
      -- the error of the rows before is that of all rows
      have hwhole : fold a ((rows ++ [cell]).filterMap id) = .error e := by
        rcases cell with _ | v
        · simpa using hfold
        · rw [filterMap_concat_some, fold_concat, hfold]
          rfl
      rw [hwhole]
      exact .error e
    | @ok s acc h =>
      show Agree _ ([cell].foldlM (runningStep a) s) _
      rw [List.foldlM_cons]
      have hstep := h.agree_runningStep cell
      generalize runningStep a s cell = step at hstep ⊢
      generalize fold a ((rows ++ [cell]).filterMap id) = whole at hstep ⊢
      cases hstep with
      | error e => exact .error e
      | ok h => exact .ok h

/-- The running aggregates of some rows are those of the prefixes, and there are none if the
aggregate of all rows fails. -/
lemma agree_running (a : Aggregate) (rows : List (Cell k)) :
    Agree (fun out acc => PrefixAggregates a rows out ∧ (out.filterMap id).getLast? = acc)
      (running a rows) (fold a (rows.filterMap id)) := by
  rw [running]
  have hrun := agree_foldlM_runningStep a rows
  generalize rows.foldlM (runningStep a) (none, []) = run at hrun ⊢
  generalize fold a (rows.filterMap id) = whole at hrun ⊢
  cases hrun with
  | error e => exact .error e
  | ok h => exact .ok ⟨h.prefixes, h.last⟩

/-! ### The running aggregate of a column -/

lemma refines_cumulative (h : c.Holds name o rows) (a : Aggregate) :
    (c.cumulative a).Refines (Holds name o) (do
      check k a.operator
      running a rows) := by
  have hrebuild : (Traced.ofExcept (running a rows) >>= fun out => c.rebuild out).Refines
      (Holds name o) (running a rows >>= .ok) :=
    Traced.Refines.ofExcept_bind fun out _ => refines_rebuild h out
  rw [show running a rows >>= .ok = running a rows from bind_pure _] at hrebuild
  rw [cumulative, h.rows_eq]
  exact Traced.Refines.ofExcept_bind fun _ _ => hrebuild

lemma Holds.reduce_eq (h : c.Holds name o rows) (a : Aggregate) :
    c.reduce a = check k a.operator >>= fun _ => fold a (rows.filterMap id) := by
  rw [reduce, values, Container.values, h.2.rows_eq]

/-- There is no value to be aggregated exactly if no row has one. -/
lemma Holds.filterMap_eq_nil_iff (h : c.Holds name o rows) :
    rows.filterMap id = [] ↔ ∀ i v, c.get i ≠ .ok (some v) := by
  rw [List.filterMap_eq_nil_iff]
  simp only [h.get_eq_ok_iff, ne_eq, ← not_exists]
  constructor
  · rintro hall ⟨i, v, hi⟩
    cases hall _ (List.mem_of_getElem? hi)
  · rintro hno x hx
    obtain ⟨i, hi⟩ := List.mem_iff_getElem?.1 hx
    rcases x with _ | v
    · rfl
    · exact absurd ⟨i, v, hi⟩ hno

/-- The column `d` has the aggregates of the prefixes of `c`, of which `acc` is the aggregate. -/
structure Accumulates (a : Aggregate) (c d : Column k) (acc : Option k.Value) : Prop where
  name_eq : d.name = c.name
  options_eq : d.options = c.options
  len_eq : d.len = c.len
  /-- Nulls stay null, and there are no other ones. -/
  null_iff : ∀ i, d.get i = .ok none ↔ c.get i = .ok none
  /-- A row with a value is the aggregate of the rows up to it. -/
  value : ∀ i v, d.get i = .ok (some v) →
    ∃ h, (c.head (i + 1)).result = .ok h ∧ h.reduce a = .ok (some v)
  /-- The last row with a value is the aggregate of the column. -/
  last : d.values.getLast? = acc
  /-- There is no aggregate exactly if there is no value. -/
  none_iff : acc = none ↔ ∀ i v, c.get i ≠ .ok (some v)

lemma Holds.accumulates {acc : Option k.Value} (h : c.Holds name o rows)
    (hcheck : check k a.operator = .ok ()) (hfold : fold a (rows.filterMap id) = .ok acc)
    (hd : d.Holds name o out) (hout : PrefixAggregates a rows out)
    (hlast : (out.filterMap id).getLast? = acc) : Accumulates a c d acc := by
  constructor
  case name_eq => exact hd.1.trans h.1.symm
  case options_eq => exact hd.2.options_eq.trans h.2.options_eq.symm
  case len_eq => rw [hd.len_eq, h.len_eq, hout.length_eq]
  case null_iff =>
    intro i
    rw [hd.get_eq_ok_iff, h.get_eq_ok_iff, hout.null_iff]
  -- The head that ends with the row holds the prefix of the rows, and is legal as the column is.
  case value =>
    intro i v hi
    obtain ⟨p, hp, hhead⟩ := refines_rebuild h (rows.take (i + 1))
    rw [← h.rows_eq] at hp
    refine ⟨p, hp, ?_⟩
    rw [hhead.reduce_eq, hcheck]
    exact hout.value i v (hd.get_eq_ok_iff.1 hi)
  case last => rw [values, Container.values, hd.2.rows_eq, hlast]
  case none_iff =>
    rw [← h.filterMap_eq_nil_iff, ← fold_eq_none_iff (a := a), hfold, Except.ok.injEq]

/-- **Running aggregates are the aggregates of the prefixes.** For every aggregate, the running form
fails exactly if the aggregate of the column does, and with the same error. Otherwise it gives a
column of the same name, options and length that is null where the column is, and whose every other
row is the aggregate of the head of the column that ends with this row; the last of them is the
aggregate of the column, which there is unless all rows are null. -/
theorem Reachable.cumulative_accumulates (h : c.Reachable) (a : Aggregate) :
    Agree (Accumulates a c) (c.cumulative a).result (c.reduce a) := by
  have hcumulative := refines_cumulative h.holds a
  have hrun := agree_running a c.rows
  rw [h.holds.reduce_eq]
  rcases hcheck : check k a.operator with e | u
  · rw [hcheck] at hcumulative
    rw [show (c.cumulative a).result = .error e from hcumulative]
    exact .error e
  · rw [hcheck] at hcumulative
    change Traced.Refines _ _ (running a c.rows) at hcumulative
    show Agree _ _ (fold a (c.rows.filterMap id))
    generalize hfold : fold a (c.rows.filterMap id) = whole at hrun ⊢
    generalize running a c.rows = run at hrun hcumulative
    cases hrun with
    | error e =>
      rw [show (c.cumulative a).result = .error e from hcumulative]
      exact .error e
    | ok hout =>
      obtain ⟨d, hd, hholds⟩ := hcumulative
      rw [hd]
      exact .ok (h.holds.accumulates hcheck hfold hholds hout.1 hout.2)

/-- Nulls at the start, in the middle and at the end stay null, and a value that is no less than the
one carried does not replace it. A sum of decimals that overflows at the second value fails as the
sum of the column does. -/
theorem cumulative_accumulates_of_nulls :
    (∃ c d : Column .int32,
      (ofRows "a" [none, some 3, none, some 1, some 5, none] (.withChunkRows .int32 2)).result
          = .ok c ∧
        (c.cumulative .min).result = .ok d ∧
        d.rows = [none, some 3, none, some 1, some 1, none] ∧ c.min = .ok (some 1) ∧
        Agree (Accumulates .min c) (.ok d) c.min) ∧
    ∃ c : Column .decimal,
      (ofRows "b" [some Decimal.max, none, some Decimal.one] {}).result = .ok c ∧
        (c.cumulative .sum).result = .error (.overflow .decimal (.arithmetic .add)) ∧
        Agree (Accumulates .sum c) (c.cumulative .sum).result c.sum :=
  ⟨⟨_, _, rfl, rfl, by decide, rfl, Reachable.cumulative_accumulates
      (.ofRows "a" [none, some 3, none, some 1, some 5, none] (.withChunkRows .int32 2) rfl) .min⟩,
    _, rfl, rfl, Reachable.cumulative_accumulates
      (.ofRows "b" [some Decimal.max, none, some Decimal.one] {} rfl) .sum⟩

end Columnar.Column
