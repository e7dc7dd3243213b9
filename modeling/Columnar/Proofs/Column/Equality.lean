import Columnar.Proofs.Column.Alike
import Columnar.Proofs.Column.Chunking
import Columnar.Proofs.Column.Comparison
import Columnar.Proofs.Column.Layout
import Columnar.Proofs.Element.Digest
/-!
# Equality of containers

Containers are compared by their lengths, by the numbers of nulls that they keep, and chunk by chunk
and row by row. Where every value equals itself alone, that is to say that they have the same rows,
cut into chunks of the same sizes. Options and what is stored beneath nulls take no part.

Every operation respects this equality. Once the options agree, what a container of some rows does
is a matter of these rows, so that equal containers are refused with one error or end as equal
containers. With other options a change might cut the rows at other places.
-/

namespace Columnar

variable {k : Kind} {o o' : Options} {xs ys : List (Cell k)}

/-- Lists of one length pass a test pair by pair. -/
lemma length_beq_and_all_zip_iff {α : Type} {r : α → α → Bool} {l l' : List α} :
    (l.length == l'.length && (l.zip l').all fun (x, y) => r x y) = true ↔
      List.Forall₂ (fun x y => r x y = true) l l' := by
  rw [List.forall₂_iff_zip, Bool.and_eq_true, beq_iff_eq, List.all_eq_true]
  exact and_congr_right fun _ => ⟨fun h _ _ hp => h _ hp, fun h p hp => h hp⟩

/-! ### Equal rows -/

section

variable (h32 : k ≠ .float32) (h64 : k ≠ .float64)
include h32 h64

lemma Kind.Value.equals_iff (a b : k.Value) : equals a b ↔ a = b := by
  have hordered : Comparison.Ordered a b :=
    ⟨isUnordered_eq_false h32 h64 a, isUnordered_eq_false h32 h64 b⟩
  show Comparison.equal.evaluate a b = true ↔ a = b
  rw [Comparison.evaluate_equal_iff, and_iff_right hordered]
  exact ⟨key_injective h32 h64, congrArg key⟩

lemma Cell.equals_iff (x y : Cell k) : Cell.equals x y ↔ x = y := by
  rcases x with _ | a <;> rcases y with _ | b
  case some.some => simp [Cell.equals, Kind.Value.equals_iff h32 h64]
  all_goals simp [Cell.equals]

/-- Chunks are equal if their rows are. -/
lemma Chunk.equals_iff (c d : Chunk k) : c.equals d ↔ c.rows = d.rows := by
  rw [Chunk.equals, ← length_rows, ← length_rows, length_beq_and_all_zip_iff,
    ← List.forall₂_eq_eq_eq]
  simp only [Cell.equals_iff h32 h64]

namespace Container

variable {c d : Container k}

/-- Containers are equal if their rows are, and the sizes of their chunks. -/
lemma Holds.equals_iff (hc : c.Holds o xs) (hd : d.Holds o' ys) :
    c.equals d ↔ xs = ys ∧ c.sizes = d.sizes := by
  have hchunks : List.Forall₂ (fun x y : Chunk k => x.equals y) c.chunks.toList d.chunks.toList ↔
      c.chunks.toList.map Chunk.rows = d.chunks.toList.map Chunk.rows := by
    rw [← List.forall₂_eq_eq_eq, List.forall₂_map_left_iff, List.forall₂_map_right_iff]
    simp only [Chunk.equals_iff h32 h64]
  rw [equals, Bool.and_assoc, Bool.and_eq_true, ← Array.length_toList, ← Array.length_toList,
    length_beq_and_all_zip_iff, hchunks, hc.map_rows_eq_iff hd, and_iff_right_iff_imp]
  -- the lengths and the numbers of nulls that are kept along follow from the rows
  rintro ⟨rfl, -⟩
  simp [hc.len_eq, hd.len_eq, hc.nullCount_eq, hd.nullCount_eq]

end Container

end

/-! ### What equal columns do -/

namespace Column

variable {l : Kind} {name name' : String} {c d : Column k}

/-- The containers of the columns are equal. -/
def EqualContents (c d : Column k) : Prop := c.container.equals d.container

/-- The columns have the same options and rows. Their names may differ. -/
def SameRows (c d : Column k) : Prop :=
  ∃ o rows, c.container.Holds o rows ∧ d.container.Holds o rows

lemma SameRows.equalContents (h32 : k ≠ .float32) (h64 : k ≠ .float64)
    (h : c.SameRows d) : c.EqualContents d := by
  obtain ⟨o, rows, hc, hd⟩ := h
  exact (hc.equals_iff h32 h64 hd).2 ⟨rfl, hc.sizes_eq.trans hd.sizes_eq.symm⟩

lemma sameRows_of_holds (hc : c.Holds name o xs) (hd : d.Holds name' o xs) :
    c.SameRows d := ⟨o, xs, hc.2, hd.2⟩

lemma Reachable.sameRows_iff (hc : c.Reachable) (hd : d.Reachable) :
    c.SameRows d ↔ c.options = d.options ∧ c.rows = d.rows := by
  constructor
  · rintro ⟨o, rows, hc, hd⟩
    exact ⟨hc.options_eq.trans hd.options_eq.symm, hc.rows_eq.trans hd.rows_eq.symm⟩
  · rintro ⟨hoptions, hrows⟩
    refine ⟨c.options, c.rows, hc.holds.2, ?_⟩
    rw [hoptions, hrows]
    exact hd.holds.2

namespace Mutation

/-- A mutation ends alike on two columns of the same rows, and leaves them so. -/
theorem sameRows_run {m : Mutation k}
    (hm : ∀ other, m.operand? = some other → other.container.WellFormed) (h : c.SameRows d) :
    (m.run c).result = (m.run d).result ∧ (m.run c).state.SameRows (m.run d).state := by
  obtain ⟨o, rows, hc, hd⟩ := id h
  obtain ⟨rename, spec, hspec⟩ := m.exists_spec hm o rows
  exact (hspec c.name c ⟨rfl, hc⟩).alike (hspec d.name d ⟨rfl, hd⟩) h
    fun _ _ _ => sameRows_of_holds

/-- Columns of the same rows have the same rows after any run of mutations, by induction on the
run. -/
theorem sameRows_runAll {ms : List (Mutation k)}
    (hms : ∀ m ∈ ms, ∀ other, m.operand? = some other → other.container.WellFormed)
    (h : c.SameRows d) : (runAll ms c).SameRows (runAll ms d) := by
  induction ms generalizing c d with
  | nil => exact h
  | cons m ms ih =>
    exact ih (fun m hm => hms m (List.mem_cons_of_mem _ hm))
      (sameRows_run (hms m List.mem_cons_self) h).2

end Mutation

/-- The kind of a derived column is that of the column, or one of flags or of row numbers. -/
lemma Derivation.target_eq (q : Derivation k l) : l = k ∨ l = .bool ∨ l = .uint64 := by
  cases q <;> simp

/-- Every operation ends alike on the two columns: with the same error, or with columns of equal
containers. -/
structure RespondsEqually (c d : Column k) : Prop where
  mutate : ∀ m : Mutation k, (∀ other, m.operand? = some other → other.Reachable) →
    (m.run c).result = (m.run d).result ∧ (m.run c).state.EqualContents (m.run d).state
  mutateAll : ∀ ms : List (Mutation k),
    (∀ m ∈ ms, ∀ other, m.operand? = some other → other.Reachable) →
    (Mutation.runAll ms c).EqualContents (Mutation.runAll ms d)
  binary : ∀ (op : BinaryOp) (other : Column k), other.Reachable →
    Agree EqualContents (c.binary op other).result (d.binary op other).result
  compare : ∀ (op : Comparison) (other : Column k), other.Reachable →
    Agree EqualContents (c.compare op other).result (d.compare op other).result
  derive : ∀ {l : Kind} (q : Derivation k l), Agree EqualContents (q.run c).result (q.run d).result

/-- What columns of the same rows do is a matter of these, and comes out equal. -/
theorem SameRows.respondsEqually (h32 : k ≠ .float32) (h64 : k ≠ .float64)
    (h : c.SameRows d) : RespondsEqually c d := by
  obtain ⟨o, rows, hc, hd⟩ := id h
  have hc : c.Holds c.name o rows := ⟨rfl, hc⟩
  have hd : d.Holds d.name o rows := ⟨rfl, hd⟩
  -- results that refine one specification on rows have equal containers
  have hagree : ∀ {l : Kind} {x y : Traced (Column l)} {spec : Except ColumnError (List (Cell l))},
      l ≠ .float32 → l ≠ .float64 → x.Refines (Holds c.name o) spec →
      y.Refines (Holds d.name o) spec → Agree EqualContents x.result y.result :=
    fun h32 h64 hx hy => hx.agree hy fun _ _ _ ht ht' =>
      (sameRows_of_holds ht ht').equalContents h32 h64
  constructor
  case mutate =>
    intro m hm
    obtain ⟨hresult, hstate⟩ :=
      Mutation.sameRows_run (fun other hother => (hm other hother).holds.2.wellFormed) h
    exact ⟨hresult, hstate.equalContents h32 h64⟩
  case mutateAll =>
    intro ms hms
    exact (Mutation.sameRows_runAll
      (fun m hm other hother => (hms m hm other hother).holds.2.wellFormed) h).equalContents h32 h64
  case binary =>
    intro op other hother
    have hrefines := refines_binary hd hother.holds.2 op
    rw [hd.2.checkLayout_congr hc.2 hother.holds.2 hother.holds.2] at hrefines
    exact hagree h32 h64 (refines_binary hc hother.holds.2 op) hrefines
  case compare =>
    intro op other hother
    have hrefines := refines_compare hd hother.holds.2 op
    rw [hd.2.checkLayout_congr hc.2 hother.holds.2 hother.holds.2] at hrefines
    exact hagree (by decide) (by decide) (refines_compare hc hother.holds.2 op) hrefines
  case derive =>
    intro l q
    obtain ⟨spec, hspec⟩ := q.exists_spec rows
    -- No operation makes floating-point numbers out of a column without them.
    have htarget : l ≠ .float32 ∧ l ≠ .float64 := by
      rcases q.target_eq with rfl | rfl | rfl
      · exact ⟨h32, h64⟩
      · decide
      · decide
    exact hagree htarget.1 htarget.2 (hspec _ o c hc) (hspec _ o d hd)

/-! ### Equality of reachable columns -/

/-- Equality is a matter of the rows, and respected by everything that is done to columns. -/
structure EqualityIsLogical (k : Kind) : Prop where
  /-- Containers are equal if they have the same rows, and are of one capacity or of one chunk. -/
  equalContents_iff : ∀ {c d : Column k}, c.Reachable → d.Reachable →
    (c.EqualContents d ↔ c.rows = d.rows ∧
      (c.container.chunkCapacity = d.container.chunkCapacity ∨
        c.len ≤ Min.min c.container.chunkCapacity d.container.chunkCapacity))
  equivalence : Equivalence fun c d : {c : Column k // c.Reachable} => c.1.EqualContents d.1
  /-- What is stored beneath nulls does not take part. -/
  alike : ∀ {c c' d d' : Column k}, c.Reachable → c'.Reachable → d.Reachable → d'.Reachable →
    c.container.Alike c'.container → d.container.Alike d'.container →
    (c.EqualContents d ↔ c'.EqualContents d')
  /-- No operation tells equal columns of the same options apart. -/
  respondsEqually : ∀ {c d : Column k}, c.Reachable → d.Reachable → c.EqualContents d →
    c.options = d.options → RespondsEqually c d

/-- **Equality is logical and a congruence.** For every kind but those of floating-point numbers,
two reachable containers are equal if they have the same rows, and either the same capacity of
chunks or no more rows than one chunk of either holds. This is an equivalence, which does not see
what is stored beneath nulls; and on equal containers of the same options, every change in place,
every run of changes and every operation that gives a new column end with the same error or with
equal containers. -/
theorem equality_isLogical (h32 : k ≠ .float32) (h64 : k ≠ .float64) : EqualityIsLogical k := by
  have hequal : ∀ {c d : Column k}, c.Reachable → d.Reachable →
      (c.EqualContents d ↔ c.rows = d.rows ∧ c.container.sizes = d.container.sizes) :=
    fun hc hd => hc.holds.2.equals_iff h32 h64 hd.holds.2
  constructor
  case equalContents_iff =>
    intro c d hc hd
    rw [hequal hc hd]
    refine and_congr_right fun hrows => ?_
    have hlen : d.len = c.len := by rw [hd.holds.len_eq, hc.holds.len_eq, hrows]
    rw [hc.holds.2.sizes_eq_chunkSizes, hd.holds.2.sizes_eq_chunkSizes]
    show chunkSizes _ c.len = chunkSizes _ d.len ↔ _
    rw [hlen]
    exact chunkSizes_eq_iff (c.options.chunkCapacity_pos k) (d.options.chunkCapacity_pos k)
  case equivalence =>
    constructor
    · intro c
      exact (hequal c.2 c.2).2 ⟨rfl, rfl⟩
    · intro c d h
      obtain ⟨hrows, hsizes⟩ := (hequal c.2 d.2).1 h
      exact (hequal d.2 c.2).2 ⟨hrows.symm, hsizes.symm⟩
    · intro c d e h h'
      obtain ⟨hrows, hsizes⟩ := (hequal c.2 d.2).1 h
      obtain ⟨hrows', hsizes'⟩ := (hequal d.2 e.2).1 h'
      exact (hequal c.2 e.2).2 ⟨hrows.trans hrows', hsizes.trans hsizes'⟩
  case alike =>
    intro c c' d d' hc hc' hd hd' halike halike'
    have hsame : ∀ {c c' : Column k}, c.Reachable → c'.Reachable →
        c.container.Alike c'.container →
        c.rows = c'.rows ∧ c.container.sizes = c'.container.sizes := by
      intro c c' hc hc' h
      obtain ⟨o, rows, hc, hc'⟩ := (hc.sameRows_iff hc').2 ⟨h.options_eq, h.rows_eq⟩
      exact ⟨h.rows_eq, hc.sizes_eq.trans hc'.sizes_eq.symm⟩
    obtain ⟨hrows, hsizes⟩ := hsame hc hc' halike
    obtain ⟨hrows', hsizes'⟩ := hsame hd hd' halike'
    rw [hequal hc hd, hequal hc' hd', hrows, hsizes, hrows', hsizes']
  case respondsEqually =>
    intro c d hc hd h hoptions
    have hrows : c.rows = d.rows := ((hequal hc hd).1 h).1
    exact ((hc.sameRows_iff hd).2 ⟨hoptions, hrows⟩).respondsEqually h32 h64

/-- A null that was never given a value, and one beneath which a sum is stored, the first in a chunk
of two rows and the second in a longer one. Three rows are not equal in chunks of these lengths. -/
theorem equality_isLogical_of_stored_sum : ∃ c c' d l r : Column .int32,
    (ofRows "a" [some 6, none] (.withChunkRows .int32 2)).result = .ok c ∧
      (ofRows "b" [some 6, none] {}).result = .ok c' ∧
      (ofRows "d" [some 1, some 5] {}).result = .ok l ∧
      (ofRows "r" [some 5, none] {}).result = .ok r ∧
      d = ((Mutation.binary (.arithmetic .add) r).run l).state ∧
      c.container.chunks.toList.map (fun chunk => chunk.values.values) = [#[6, 0]] ∧
      d.container.chunks.toList.map (fun chunk => chunk.values.values) = [#[6, 5]] ∧
      EqualityIsLogical .int32 ∧ c.EqualContents d ∧ RespondsEqually c' d ∧
      ∃ e e' : Column .int32,
        (ofRows "e" [some 6, none, some 7] (.withChunkRows .int32 2)).result = .ok e ∧
          (ofRows "e" [some 6, none, some 7] {}).result = .ok e' ∧ ¬ e.EqualContents e' := by
  have hlogical := equality_isLogical (k := .int32) (by decide) (by decide)
  have hd := Reachable.mutate (.binary (.arithmetic .add) _)
    (Reachable.ofRows (k := .int32) "d" [some 1, some 5] {} rfl)
    (by rintro _ ⟨⟩; exact Reachable.ofRows (k := .int32) "r" [some 5, none] {} rfl)
  have hc := Reachable.ofRows (k := .int32) "a" [some 6, none] (.withChunkRows .int32 2) rfl
  have hc' := Reachable.ofRows (k := .int32) "b" [some 6, none] {} rfl
  refine ⟨_, _, _, _, _, rfl, rfl, rfl, rfl, rfl, by cbv, by cbv, hlogical,
    (hlogical.equalContents_iff hc hd).2 ⟨by cbv, Or.inr (by decide)⟩,
    hlogical.respondsEqually hc' hd ((hlogical.equalContents_iff hc' hd).2 ⟨by cbv, Or.inl rfl⟩)
      (by cbv),
    _, _, rfl, rfl, fun h => ?_⟩
  have hcut := ((hlogical.equalContents_iff
    (.ofRows (k := .int32) "e" [some 6, none, some 7] (.withChunkRows .int32 2) rfl)
    (.ofRows (k := .int32) "e" [some 6, none, some 7] {} rfl)).1 h).2
  revert hcut
  decide

end Column

end Columnar
