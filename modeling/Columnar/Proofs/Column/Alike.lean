import Columnar.Proofs.Column.Rows
/-!
# What is stored beneath nulls

Operators compute on every stored value, also beneath nulls, and leave there what they like. Two
columns are alike if they differ in nothing but that, and in the sizes of their allocations. On
columns that are alike, every change in place and every operator ends alike: with the same error, or
with columns that are alike again.

Well-formed columns are alike exactly if they have the same name, options and rows, which is how the
two runs are compared: both refine one specification on rows.
-/

namespace Columnar

variable {k : Kind} {cap cap' : ℕ} {o : Options} {xs : List (Cell k)}

/-! ### Chunks -/

/-- The chunks have as many rows, null in the same places, and the same values elsewhere. -/
structure Chunk.Alike (c d : Chunk k) : Prop where
  len_eq : c.len = d.len
  validity_eq : c.validity = d.validity
  /-- What is stored for a row with a value is the same. -/
  value_eq : ∀ i, c.validity.isValid i = true → c.values.values[i]? = d.values.values[i]?

namespace Chunk

variable {c d : Chunk k}

lemma getElem?_rows (c : Chunk k) (i : ℕ) :
    c.rows[i]? = if c.validity.isValid i then c.values.values[i]?.map some
      else c.values.values[i]?.map fun _ => none := by
  rw [rows_eq_map_slots, List.getElem?_map]
  rcases Nat.lt_or_ge i c.slots.length with hi | hi
  · rw [List.getElem?_eq_getElem hi, getElem_slots c hi (lt_size hi),
      Array.getElem?_eq_getElem (lt_size hi)]
    cases c.validity.isValid i <;> rfl
  · have hsize : c.values.values.size ≤ i := by simpa [len_eq_size] using hi
    simp [List.getElem?_eq_none hi, Array.getElem?_eq_none hsize]

lemma Alike.rows_eq (h : c.Alike d) : c.rows = d.rows := by
  ext1 i
  rw [getElem?_rows, getElem?_rows, ← h.validity_eq]
  split_ifs with hvalid
  · rw [h.value_eq i hvalid]
  · have hlen := h.len_eq
    simp only [len_eq_size] at hlen
    rcases Nat.lt_or_ge i c.values.values.size with hi | hi
    · rw [Array.getElem?_eq_getElem hi, Array.getElem?_eq_getElem (hlen ▸ hi)]
      rfl
    · rw [Array.getElem?_eq_none hi, Array.getElem?_eq_none (hlen ▸ hi)]

/-- Well-formed chunks with the same rows are alike. -/
lemma alike_of_rows_eq (hc : c.WellFormed cap) (hd : d.WellFormed cap') (h : c.rows = d.rows) :
    c.Alike d := by
  have hlen : c.len = d.len := by rw [← length_rows, ← length_rows, h]
  have hrow : ∀ i, (if c.validity.isValid i then c.values.values[i]?.map some
      else c.values.values[i]?.map fun _ => none)
        = if d.validity.isValid i then d.values.values[i]?.map some
          else d.values.values[i]?.map fun _ => none := by
    intro i
    rw [← getElem?_rows, ← getElem?_rows, h]
  have hvalidity : c.validity = d.validity := by
    refine hc.validity.ext hd.validity (by rw [hc.len_validity, hd.len_validity, hlen]) ?_
    intro i hi
    rw [hc.len_validity] at hi
    have hrow := hrow i
    simp only [len_eq_size] at hi hlen
    rw [Array.getElem?_eq_getElem hi, Array.getElem?_eq_getElem (hlen ▸ hi)] at hrow
    by_cases hv : c.validity.isValid i = true
    · by_cases hw : d.validity.isValid i = true
      · rw [hv, hw]
      · -- a value is not a null
        rw [if_pos hv, if_neg hw] at hrow
        cases hrow
    · by_cases hw : d.validity.isValid i = true
      · rw [if_neg hv, if_pos hw] at hrow
        cases hrow
      · rw [Bool.eq_false_of_not_eq_true hv, Bool.eq_false_of_not_eq_true hw]
  refine ⟨hlen, hvalidity, fun i hi => ?_⟩
  have hrow := hrow i
  rw [← hvalidity, if_pos hi, if_pos hi] at hrow
  exact Option.map_injective (Option.some_injective _) hrow

end Chunk

/-! ### Containers -/

/-- The containers have the same options and chunks that are alike. -/
structure Container.Alike (c d : Container k) : Prop where
  options_eq : c.options = d.options
  chunks : List.Forall₂ Chunk.Alike c.chunks.toList d.chunks.toList

namespace Container

variable {c d : Container k}

lemma Alike.rows_eq (h : c.Alike d) : c.rows = d.rows := by
  have hrows : c.chunks.toList.map Chunk.rows = d.chunks.toList.map Chunk.rows := by
    rw [← List.forall₂_eq_eq_eq, List.forall₂_map_left_iff, List.forall₂_map_right_iff]
    exact h.chunks.imp fun _ _ => Chunk.Alike.rows_eq
  rw [rows, rows, List.flatMap_def, List.flatMap_def, hrows]

/-- Containers of the same options and rows are alike, because they are cut into chunks at the same
places. -/
lemma Holds.alike (hc : c.Holds o xs) (hd : d.Holds o xs) : c.Alike d := by
  have hsizes : c.sizes = d.sizes := by rw [hc.sizes_eq, hd.sizes_eq]
  have hrows := (hc.map_rows_eq_iff hd).2 ⟨rfl, hsizes⟩
  obtain ⟨s, hc, -⟩ := hc
  obtain ⟨t, hd, -⟩ := hd
  refine ⟨hc.options_eq.trans hd.options_eq.symm, ?_⟩
  rw [List.forall₂_iff_get]
  refine ⟨by simpa using congrArg List.length hrows, fun i hi hi' => ?_⟩
  refine Chunk.alike_of_rows_eq (hc.packed.wellFormed _ (List.getElem_mem hi))
    (hd.packed.wellFormed _ (List.getElem_mem hi')) ?_
  have hchunk := List.getElem_of_eq hrows (i := i) (by simpa using hi)
  rw [List.getElem_map, List.getElem_map] at hchunk
  exact hchunk

end Container

/-! ### Columns -/

namespace Column

variable {name : String} {c d : Column k}

/-- The columns have the same name and containers that are alike. -/
structure Alike (c d : Column k) : Prop where
  name_eq : c.name = d.name
  container : c.container.Alike d.container

lemma Holds.alike (hc : c.Holds name o xs) (hd : d.Holds name o xs) : c.Alike d :=
  ⟨hc.1.trans hd.1.symm, hc.2.alike hd.2⟩

/-- For well-formed columns, to be alike is to have the same name, options and rows. -/
theorem alike_iff (hc : c.container.WellFormed) (hd : d.container.WellFormed) :
    c.Alike d ↔ c.name = d.name ∧ c.options = d.options ∧ c.rows = d.rows := by
  constructor
  · intro h
    exact ⟨h.name_eq, h.container.options_eq, h.container.rows_eq⟩
  · rintro ⟨hname, hoptions, hrows⟩
    have hholds := holds_of_wellFormed hd
    rw [← hname, ← hoptions, ← hrows] at hholds
    exact (holds_of_wellFormed hc).alike hholds

/-- The columns have one name, one set of options and the same rows. -/
def Matches (c d : Column k) : Prop := ∃ name o rows, c.Holds name o rows ∧ d.Holds name o rows

lemma matches_iff : c.Matches d ↔ c.container.WellFormed ∧ d.container.WellFormed ∧ c.Alike d := by
  constructor
  · rintro ⟨name, o, rows, hc, hd⟩
    exact ⟨hc.2.wellFormed, hd.2.wellFormed, hc.alike hd⟩
  · rintro ⟨hc, hd, h⟩
    obtain ⟨hname, hoptions, hrows⟩ := (alike_iff hc hd).1 h
    refine ⟨c.name, c.options, c.rows, holds_of_wellFormed hc, ?_⟩
    rw [hname, hoptions, hrows]
    exact holds_of_wellFormed hd

lemma matches_of_holds (hc : c.Holds name o xs) (hd : d.Holds name o xs) : c.Matches d :=
  ⟨name, o, xs, hc, hd⟩

/-- Operands that are alike have the same rows, and columns of the same rows can be paired with both
of them or with neither. -/
lemma Holds.operands {x y : Column k} (hc : c.Holds name o xs) (hd : d.Holds name o xs)
    (hx : x.container.WellFormed) (hy : y.container.WellFormed) (hxy : x.Alike y) :
    ∃ o' ys, x.container.Holds o' ys ∧ y.container.Holds o' ys ∧
      Container.checkLayout d.container y.container
        = Container.checkLayout c.container x.container := by
  obtain ⟨_, o', ys, ⟨-, hx⟩, -, hy⟩ := matches_iff.2 ⟨hx, hy, hxy⟩
  exact ⟨o', ys, hx, hy, hd.2.checkLayout_congr hc.2 hy hx⟩

namespace Mutation

/-- Two mutations differ in nothing but their operands, and these are alike. -/
inductive Alike : Mutation k → Mutation k → Prop
  | same {m : Mutation k} : m.operand? = none → Alike m m
  | binary (op : BinaryOp) {x y : Column k} : x.container.WellFormed → y.container.WellFormed →
    x.Alike y → Alike (.binary op x) (.binary op y)
  | kernelBinary (op : BinaryOp) {x y : Column k} : x.container.WellFormed →
    y.container.WellFormed → x.Alike y → Alike (.kernelBinary op x) (.kernelBinary op y)

/-- What a mutation does is a matter of the options and rows; it may give another name. -/
lemma exists_spec (m : Mutation k) (hm : ∀ other, m.operand? = some other →
    other.container.WellFormed) (o : Options) (rows : List (Cell k)) :
    ∃ (rename : String → String) (spec : Except ColumnError (List (Cell k))),
      ∀ (name : String) (c : Column k), c.Holds name o rows →
        m.run.Refines c (Holds (rename name) o) spec := by
  -- the storage operations, of which some have their cell from a scalar
  have hstorage : ∀ (op : StorageOp k) (name : String) (c : Column k), c.Holds name o rows →
      (onContainer op.run).Refines c (Holds name o)
        ((op.verdict rows).map fun _ => op.onRows rows) :=
    fun op _ c h => refines_onContainer h (Container.refines_storage op h.2)
  -- all columns of these options and rows can be paired with the same columns
  have hlayout : ∀ other : Column k, other.container.WellFormed → ∃ layout,
      ∀ (name : String) (c : Column k), c.Holds name o rows →
        Container.checkLayout c.container other.container = layout := by
    intro other hother
    obtain ⟨c₀, -, h₀⟩ := refines_ofRows "" rows o
    exact ⟨_, fun _ c h => h.2.checkLayout_congr h₀.2 hother.holds hother.holds⟩
  cases m with
  | rename name' =>
    exact ⟨fun _ => name', .ok rows, fun _ c h => ⟨_, Edit.yields_updates _ c, rfl, h.2⟩⟩
  | set index cell => exact ⟨id, _, hstorage (.set index cell)⟩
  | setScalar index s =>
    exact ⟨id, _, fun name c h => Edit.Refines.ofExcept_bind fun cell _ =>
      hstorage (.set index cell) name c h⟩
  | append cell => exact ⟨id, _, hstorage (.append cell)⟩
  | appendScalar s =>
    exact ⟨id, _, fun name c h => Edit.Refines.ofExcept_bind fun cell _ =>
      hstorage (.append cell) name c h⟩
  | appendMany cell count => exact ⟨id, _, hstorage (.appendMany cell count)⟩
  | resize newLen => exact ⟨id, _, hstorage (.resize newLen)⟩
  | binary op other =>
    have hother := hm other rfl
    obtain ⟨layout, hlayout⟩ := hlayout other hother
    refine ⟨id, do check k (.binary op); layout; op.onPairs (rows.zip other.rows),
      fun name c h => ?_⟩
    have hrefines := refines_binaryInPlace h hother.holds op
    rwa [hlayout name c h] at hrefines
  | binaryScalar op scalar reverse =>
    exact ⟨id, _, fun _ c h => refines_binaryScalarInPlace h op scalar reverse⟩
  | shift op amount => exact ⟨id, _, fun _ c h => refines_shiftInPlace h op amount⟩
  | clip lower upper => exact ⟨id, _, fun _ c h => refines_clipInPlace h lower upper⟩
  | fillNulls v => exact ⟨id, _, hstorage (.fillNulls v)⟩
  | apply f => exact ⟨id, _, hstorage (.apply f)⟩
  | kernelBinary op other =>
    have hother := hm other rfl
    obtain ⟨layout, hlayout⟩ := hlayout other hother
    refine ⟨id, do check k (.binary op); layout; op.onPairs (rows.zip other.rows),
      fun name c h => ?_⟩
    have hrefines := Container.refines_binary h.2 hother.holds op
    rw [hlayout name c h] at hrefines
    exact refines_onContainer h hrefines
  | kernelBinaryScalar op scalar reverse =>
    exact ⟨id, _, fun _ c h => refines_onContainer h
      (Container.refines_binaryScalar h.2 op scalar reverse)⟩
  | kernelShift op amount =>
    exact ⟨id, _, fun _ c h => refines_onContainer h (Container.refines_shift h.2 op amount)⟩

/-- Mutations that are alike do the same to columns that match. -/
theorem matches_run {m m' : Mutation k} (hm : m.Alike m') (h : c.Matches d) :
    (m.run c).result = (m'.run d).result ∧ (m.run c).state.Matches (m'.run d).state := by
  obtain ⟨name, o, rows, hc, hd⟩ := id h
  cases hm with
  | same hm =>
    have hno : ∀ other, m.operand? = some other → other.container.WellFormed := by
      intro other hother
      rw [hm] at hother
      cases hother
    obtain ⟨rename, spec, hspec⟩ := m.exists_spec hno o rows
    exact (hspec name c hc).alike (hspec name d hd) h fun _ _ _ => matches_of_holds
  | binary op hx hy hxy =>
    obtain ⟨o', ys, hx, hy, hlayout⟩ := hc.operands hd hx hy hxy
    have hrefines := refines_binaryInPlace hd hy op
    rw [hlayout] at hrefines
    exact (refines_binaryInPlace hc hx op).alike hrefines h fun _ _ _ => matches_of_holds
  | kernelBinary op hx hy hxy =>
    obtain ⟨o', ys, hx, hy, hlayout⟩ := hc.operands hd hx hy hxy
    have hrefines := Container.refines_binary hd.2 hy op
    rw [hlayout] at hrefines
    exact (refines_onContainer hc (Container.refines_binary hc.2 hx op)).alike
      (refines_onContainer hd hrefines) h fun _ _ _ => matches_of_holds

/-- The column after a list of mutations, each of them carried out on what the ones before it left
behind. -/
def runAll (ms : List (Mutation k)) (c : Column k) : Column k :=
  ms.foldl (fun c m => (m.run c).state) c

/-- Columns that match do so after any run of mutations that are alike, by induction on the run. -/
theorem matches_runAll {ms ms' : List (Mutation k)} (hms : List.Forall₂ Alike ms ms')
    (h : c.Matches d) : (runAll ms c).Matches (runAll ms' d) := by
  induction hms generalizing c d with
  | nil => exact h
  | cons hm _ ih => exact ih (matches_run hm h).2

end Mutation

/-- Every operation ends alike on the two columns: with the same error, or with columns that are
alike. -/
structure RespondsAlike (c d : Column k) : Prop where
  mutate : ∀ m m' : Mutation k, m.Alike m' →
    (m.run c).result = (m'.run d).result ∧ (m.run c).state.Alike (m'.run d).state
  mutateAll : ∀ ms ms' : List (Mutation k), List.Forall₂ Mutation.Alike ms ms' →
    (Mutation.runAll ms c).Alike (Mutation.runAll ms' d)
  binary : ∀ (op : BinaryOp) (x y : Column k), x.container.WellFormed → y.container.WellFormed →
    x.Alike y → Agree Alike (c.binary op x).result (d.binary op y).result
  binaryScalar : ∀ (op : BinaryOp) (scalar : k.Value) (reverse : Bool),
    Agree Alike (c.binaryScalar op scalar reverse).result (d.binaryScalar op scalar reverse).result
  shift : ∀ (op : ShiftOp) (amount : Int32),
    Agree Alike (c.shift op amount).result (d.shift op amount).result
  compare : ∀ (op : Comparison) (x y : Column k), x.container.WellFormed →
    y.container.WellFormed → x.Alike y → Agree Alike (c.compare op x).result (d.compare op y).result
  compareScalar : ∀ (op : Comparison) (scalar : k.Value),
    Agree Alike (c.compareScalar op scalar).result (d.compareScalar op scalar).result
  clip : ∀ lower upper : k.Value,
    Agree Alike (c.clip lower upper).result (d.clip lower upper).result
  fillNulls : ∀ v : k.Value, Agree Alike (c.fillNulls v).result (d.fillNulls v).result

/-- What is stored beneath nulls has no influence: on well-formed columns that are alike, every
operation ends alike. -/
theorem Alike.respondsAlike (h : c.Alike d) (hc : c.container.WellFormed)
    (hd : d.container.WellFormed) : RespondsAlike c d := by
  have hmatches : c.Matches d := matches_iff.2 ⟨hc, hd, h⟩
  obtain ⟨name, o, rows, hc, hd⟩ := id hmatches
  constructor
  case mutate =>
    intro m m' hm
    obtain ⟨hresult, hstate⟩ := Mutation.matches_run hm hmatches
    exact ⟨hresult, (matches_iff.1 hstate).2.2⟩
  case mutateAll =>
    intro ms ms' hms
    exact (matches_iff.1 (Mutation.matches_runAll hms hmatches)).2.2
  -- Operands that are alike have one layout, so that one specification is refined on both sides.
  case binary =>
    intro op x y hx hy hxy
    obtain ⟨o', ys, hx, hy, hlayout⟩ := hc.operands hd hx hy hxy
    have hrefines := refines_binary hd hy op
    rw [hlayout] at hrefines
    exact (refines_binary hc hx op).agree hrefines fun _ _ _ => Holds.alike
  case compare =>
    intro op x y hx hy hxy
    obtain ⟨o', ys, hx, hy, hlayout⟩ := hc.operands hd hx hy hxy
    have hrefines := refines_compare hd hy op
    rw [hlayout] at hrefines
    exact (refines_compare hc hx op).agree hrefines fun _ _ _ => Holds.alike
  case binaryScalar =>
    intro op scalar reverse
    exact (refines_binaryScalar hc op scalar reverse).agree
      (refines_binaryScalar hd op scalar reverse) fun _ _ _ => Holds.alike
  case shift =>
    intro op amount
    exact (refines_shift hc op amount).agree (refines_shift hd op amount) fun _ _ _ => Holds.alike
  case compareScalar =>
    intro op scalar
    exact (refines_compareScalar hc op scalar).agree (refines_compareScalar hd op scalar)
      fun _ _ _ => Holds.alike
  case clip =>
    intro lower upper
    exact (refines_clip hc lower upper).agree (refines_clip hd lower upper)
      fun _ _ _ => Holds.alike
  case fillNulls =>
    intro v
    exact (refines_fillNulls hc v).agree (refines_fillNulls hd v) fun _ _ _ => Holds.alike

/-- A null that was never given a value, and one beneath which a sum is stored. -/
theorem respondsAlike_of_stored_sum : ∃ c l r : Column .int32,
    (ofRows "a" [some 6, none] {}).result = .ok c ∧
      (ofRows "a" [some 1, some 5] {}).result = .ok l ∧
      (ofRows "b" [some 5, none] {}).result = .ok r ∧
      c.container.chunks.toList.map (fun chunk => chunk.values.values) = [#[6, 0]] ∧
      ((Mutation.binary (.arithmetic .add) r).run l).state.container.chunks.toList.map
        (fun chunk => chunk.values.values) = [#[6, 5]] ∧
      RespondsAlike c ((Mutation.binary (.arithmetic .add) r).run l).state := by
  refine ⟨_, _, _, rfl, rfl, rfl, by cbv, by cbv, ?_⟩
  have hc := Reachable.ofRows (k := .int32) "a" [some 6, none] {} rfl
  have hd := Reachable.mutate (.binary (.arithmetic .add) _)
    (Reachable.ofRows (k := .int32) "a" [some 1, some 5] {} rfl)
    (by rintro _ ⟨⟩; exact Reachable.ofRows (k := .int32) "b" [some 5, none] {} rfl)
  obtain ⟨_, _, hc⟩ := hc.sound
  obtain ⟨_, _, hd⟩ := hd.sound
  refine Alike.respondsAlike ?_ hc.wellFormed hd.wellFormed
  exact (alike_iff hc.wellFormed hd.wellFormed).2 ⟨by cbv, by cbv, by cbv⟩

end Column

end Columnar
