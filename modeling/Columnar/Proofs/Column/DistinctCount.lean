import Columnar.Column.Stats
import Columnar.Proofs.Column.Groups
import Columnar.Proofs.Column.Rows
import Columnar.Proofs.Distinct.Order
import Columnar.Proofs.Element.Digest
/-!
# Distinct counts and groups

The statistics of a column count different bits, and its grouping different keys. While the bits are
few, their count is exact. It is then the number of groups unless one of two things happens: two
decimals share the bits by which they are counted, the two halves of the word combined, and are
counted as one; or a column of floating-point numbers holds different words that are not numbers,
which make one group, but are counted each.

However many there are, the distinct count depends on the set of the bits only, and not on the order
in which they are counted.
-/

namespace Columnar

open Distinct Ieee Format

variable {k : Kind}

/-! ### Keys and bits of a list of values -/

/-- The number of different keys among some values. -/
def distinctKeys (values : List k.Value) : ℕ := (values.map Kind.Value.key).toFinset.card

/-- The number of different bits by which some values are counted. -/
def distinctBits (values : List k.Value) : ℕ := (values.map Kind.Value.hashBits).toFinset.card

/-- Among some values, no two share their bits but not their key. -/
def BitsSeparateKeys (values : List k.Value) : Prop :=
  ∀ v ∈ values, ∀ w ∈ values, Kind.Value.hashBits v = Kind.Value.hashBits w →
    Kind.Value.key v = Kind.Value.key w

/-- Among some values, all that are unordered are the same, with all of their bits. -/
def UnorderedAreEqual (values : List k.Value) : Prop :=
  ∀ v ∈ values, ∀ w ∈ values, Kind.Value.isUnordered v = true → Kind.Value.isUnordered w = true →
    v = w

/-- The bits of every kind but decimals separate the keys. -/
lemma bitsSeparateKeys_of_ne_decimal (hk : k ≠ .decimal) (values : List k.Value) :
    BitsSeparateKeys values :=
  fun _ _ _ _ => Kind.Value.key_eq_of_hashBits_eq hk

/-- Only floating-point numbers can be unordered. -/
lemma unorderedAreEqual_of_ne_float (h32 : k ≠ .float32) (h64 : k ≠ .float64)
    (values : List k.Value) : UnorderedAreEqual values := by
  intro v _ w _ hv
  rw [Kind.Value.isUnordered_of_ne_float h32 h64] at hv
  exact absurd hv Bool.false_ne_true

/-- Among values of which no two unordered ones differ, a key is counted by the same bits wherever
it occurs. -/
lemma UnorderedAreEqual.hashBits_eq {values : List k.Value} (h : UnorderedAreEqual values)
    {v w : k.Value} (hv : v ∈ values) (hw : w ∈ values)
    (hkey : Kind.Value.key v = Kind.Value.key w) :
    Kind.Value.hashBits v = Kind.Value.hashBits w := by
  rcases Kind.Value.hashBits_eq_of_key_eq hkey with hbits | ⟨hnan, hnan'⟩
  · exact hbits
  · rw [h v hv w hw hnan hnan']

/-- Where a first property of some values determines a second one, there are no more different
second ones than first ones, and as many just if the second determines the first as well. -/
lemma card_map_le_of_determines {α β γ : Type} [DecidableEq β] [DecidableEq γ] {values : List α}
    {f : α → β} {g : α → γ} (h : ∀ v ∈ values, ∀ w ∈ values, f v = f w → g v = g w) :
    (values.map g).toFinset.card ≤ (values.map f).toFinset.card ∧
      ((values.map g).toFinset.card = (values.map f).toFinset.card ↔
        ∀ v ∈ values, ∀ w ∈ values, g v = g w → f v = f w) := by
  -- both are projections of the pairs of the two properties, the first one to one
  set pairs := (values.map fun v => (f v, g v)).toFinset with hpairs
  have hmem : ∀ p, p ∈ pairs ↔ ∃ v ∈ values, (f v, g v) = p := by simp [hpairs]
  have hfirst : (values.map f).toFinset.card = pairs.card := by
    have himage : (values.map f).toFinset = pairs.image Prod.fst := by
      ext b
      simp [hpairs]
    rw [himage]
    refine Finset.card_image_of_injOn fun p hp q hq heq => ?_
    obtain ⟨v, hv, rfl⟩ := (hmem p).1 hp
    obtain ⟨w, hw, rfl⟩ := (hmem q).1 hq
    exact Prod.ext heq (h v hv w hw heq)
  have hsecond : (values.map g).toFinset = pairs.image Prod.snd := by
    ext c
    simp [hpairs]
  rw [hfirst, hsecond]
  refine ⟨Finset.card_image_le, Finset.card_image_iff.trans ⟨fun hinj => ?_, fun hback => ?_⟩⟩
  · intro v hv w hw heq
    exact congrArg Prod.fst (hinj ((hmem _).2 ⟨v, hv, rfl⟩) ((hmem _).2 ⟨w, hw, rfl⟩) heq)
  · intro p hp q hq heq
    obtain ⟨v, hv, rfl⟩ := (hmem p).1 hp
    obtain ⟨w, hw, rfl⟩ := (hmem q).1 hq
    exact Prod.ext (hback v hv w hw heq) heq

/-- There are as many different bits as keys just if no two values share one and not the other. -/
lemma distinctBits_eq_distinctKeys_iff (values : List k.Value) :
    distinctBits values = distinctKeys values ↔
      UnorderedAreEqual values ∧ BitsSeparateKeys values := by
  by_cases hk : k = .decimal
  · -- the key of a decimal determines its bits
    have hone : UnorderedAreEqual values := by
      refine unorderedAreEqual_of_ne_float ?_ ?_ values
      · rw [hk]
        decide
      · rw [hk]
        decide
    have hcards := card_map_le_of_determines fun v hv w hw => hone.hashBits_eq hv hw
    rw [distinctBits, distinctKeys, hcards.2]
    exact ⟨fun hseparate => ⟨hone, hseparate⟩, fun h => h.2⟩
  · -- the bits of any other value determine its key
    have hseparate := bitsSeparateKeys_of_ne_decimal hk values
    rw [distinctBits, distinctKeys, eq_comm, (card_map_le_of_determines hseparate).2]
    constructor
    · intro hbits
      refine ⟨fun v hv w hw hnan hnan' => ?_, hseparate⟩
      have hkey := Kind.Value.key_eq_of_isUnordered hnan hnan'
      exact Kind.Value.eq_of_isUnordered_of_hashBits_eq hnan hnan' (hbits v hv w hw hkey)
    · rintro ⟨hone, -⟩ v hv w hw hkey
      exact hone.hashBits_eq hv hw hkey

/-! ### What the statistics count -/

namespace Container

variable {c : Container k} {o : Options} {rows : List (Cell k)}

/-- The rows that are not null are as many as the values. -/
lemma Holds.len_sub_nullCount (h : c.Holds o rows) : c.len - c.nullCount = c.values.length := by
  have hvalues : c.values.length = rows.countP fun cell => ! cell.isNone := by
    rw [values, h.rows_eq, List.length_filterMap_eq_countP]
    exact List.countP_congr fun cell _ => by simp
  have hsplit := List.length_eq_countP_add_countP Option.isNone (l := rows)
  rw [h.len_eq, h.nullCount_eq, hvalues, hsplit, Nat.add_sub_cancel_left]
  exact List.countP_congr fun cell _ => by simp [Option.isSome_iff_ne_none]

/-- While the different bits are few, they are counted exactly, and nothing is reported. -/
lemma Holds.countDistinct_eq (h : c.Holds o rows)
    (hfew : distinctBits c.values ≤ Counter.exactLimit (Counter.precisionFor c.values.length)) :
    Stats.countDistinct c = ⟨.ok (distinctBits c.values), #[]⟩ := by
  obtain ⟨counter, hrun, hestimate⟩ :=
    Counter.forRows_exact c.values.length (c.values.map Kind.Value.hashBits) hfew
  rw [Edit.forEach_map] at hrun
  rw [Stats.countDistinct, h.len_sub_nullCount, hrun, distinctBits, ← hestimate]
  rfl

end Container

namespace Column

variable {c : Column k}

/-- Statistics are never refused. They count by a run of a counter over the bits of the values. -/
lemma exists_stats (c : Column k) : ∃ s counter, c.stats.result = .ok s ∧
    Counter.Run (Counter.forRows (c.len - c.nullCount)) (c.values.map Kind.Value.hashBits) counter ∧
      s.distinctCount = counter.estimate := by
  obtain ⟨counter, hyields, hrun⟩ := Counter.exists_run (c.values.map Kind.Value.hashBits)
    (Counter.forRows (c.len - c.nullCount))
  rw [Edit.forEach_map] at hyields
  have hcount : (Stats.countDistinct c.container).result = .ok counter.estimate := by
    rw [Stats.countDistinct, Traced.result_bind]
    exact congrArg (· >>= fun counter => .ok counter.estimate) hyields.result_runOn
  rw [stats, Stats.ofContainer, Traced.result_bind, hcount]
  exact ⟨_, counter, rfl, hrun, rfl⟩

/-- The statistics of a column of few different bits count them. -/
lemma Reachable.countsBits (h : c.Reachable) {s : Stats} (hs : c.stats.result = .ok s)
    (hfew : distinctBits c.values ≤ 2 * 2 ^ Counter.precisionFor c.values.length) :
    c.stats = ⟨.ok s, #[]⟩ ∧ s.distinctCount = distinctBits c.values := by
  rw [← Counter.exactLimit_eq] at hfew
  have hcount := h.holds.2.countDistinct_eq hfew
  obtain ⟨t, ht, hbits⟩ : ∃ t, c.stats = ⟨.ok t, #[]⟩ ∧
      t.distinctCount = distinctBits c.values := by
    rw [stats, Stats.ofContainer, hcount]
    exact ⟨_, rfl, rfl⟩
  obtain rfl : t = s := by
    rw [ht] at hs
    exact Except.ok.inj hs
  exact ⟨ht, hbits⟩

/-- A column has as many groups as it has different keys. -/
lemma size_groups (c : Column k) : c.groups.groups.size = distinctKeys c.values :=
  Grouping.size_groups_ofRows c.rows

/-- **Distinct counts up to the limit.** The groups of a column are as many as its different keys.
Let these be no more than twice the registers of the sketch for its number of values. If no two
values of the column share their bits but not their key, and all that are not numbers are one word,
then no sketch is reported, and the distinct count of the statistics is the number of different keys
and of groups. If the different bits are within the limit, the distinct count is their number, and
is the number of groups only under these two conditions. The first one holds for every kind but
decimals, the second one for every kind but the two of floating-point numbers; for all others the
distinct count is exact. -/
theorem Reachable.distinctCount_eq (h : c.Reachable)
    (hfew : distinctKeys c.values ≤ 2 * 2 ^ Counter.precisionFor c.values.length) :
    ∃ s, c.stats.result = .ok s ∧
      c.groups.groups.size = distinctKeys c.values ∧
      (BitsSeparateKeys c.values → UnorderedAreEqual c.values →
        c.stats = ⟨.ok s, #[]⟩ ∧
        s.distinctCount = distinctKeys c.values ∧ s.distinctCount = c.groups.groups.size) ∧
      (distinctBits c.values ≤ 2 * 2 ^ Counter.precisionFor c.values.length →
        c.stats = ⟨.ok s, #[]⟩ ∧ s.distinctCount = distinctBits c.values ∧
        (s.distinctCount = c.groups.groups.size ↔
          BitsSeparateKeys c.values ∧ UnorderedAreEqual c.values)) ∧
      (k ≠ .decimal → BitsSeparateKeys c.values) ∧
      (k ≠ .float32 → k ≠ .float64 → UnorderedAreEqual c.values) := by
  have hsame := distinctBits_eq_distinctKeys_iff c.values
  obtain ⟨s, -, hs, -, -⟩ := c.exists_stats
  refine ⟨s, hs, c.size_groups, ?_, ?_, ?_, ?_⟩
  · -- under both conditions there are as many different bits as keys, and these are few
    intro hseparate hone
    have heq : distinctBits c.values = distinctKeys c.values := hsame.2 ⟨hone, hseparate⟩
    obtain ⟨hquiet, hcount⟩ := h.countsBits hs (heq ▸ hfew)
    refine ⟨hquiet, hcount.trans heq, ?_⟩
    rw [hcount, heq, c.size_groups]
  · intro hbits
    obtain ⟨hquiet, hcount⟩ := h.countsBits hs hbits
    refine ⟨hquiet, hcount, ?_⟩
    rw [hcount, c.size_groups, hsame]
    exact and_comm
  · intro hk
    exact bitsSeparateKeys_of_ne_decimal hk _
  · intro h32 h64
    exact unorderedAreEqual_of_ne_float h32 h64 _

/-- Two zeros and a word that is not a number, given twice, are two groups and counted as two; a
null is not counted. -/
theorem distinctCount_of_zeros : ∃ c : Column .float64,
    (ofRows "a" [some (Word.ofNat binary64 0), none, some (Word.ofNat binary64 binary64.nanWord),
      some (Word.ofNat binary64 binary64.signWord),
      some (Word.ofNat binary64 binary64.nanWord)] {}).result = .ok c ∧
      distinctKeys c.values ≤ 2 * 2 ^ Counter.precisionFor c.values.length ∧
      ∃ s, c.stats = ⟨.ok s, #[]⟩ ∧ s.distinctCount = 2 ∧ c.groups.groups.size = 2 := by
  obtain ⟨c, hc, hvalues⟩ : ∃ c : Column .float64,
      (ofRows "a" [some (Word.ofNat binary64 0), none, some (Word.ofNat binary64 binary64.nanWord),
        some (Word.ofNat binary64 binary64.signWord),
        some (Word.ofNat binary64 binary64.nanWord)] {}).result = .ok c ∧
        c.values = [Word.ofNat binary64 0, Word.ofNat binary64 binary64.nanWord,
          Word.ofNat binary64 binary64.signWord, Word.ofNat binary64 binary64.nanWord] :=
    ⟨_, rfl, rfl⟩
  have hkeys : distinctKeys c.values = 2 := by
    rw [hvalues]
    decide
  have hfew : distinctKeys c.values ≤ 2 * 2 ^ Counter.precisionFor c.values.length := by
    rw [hvalues]
    decide
  have hone : UnorderedAreEqual c.values := by
    rw [hvalues, UnorderedAreEqual]
    decide
  obtain ⟨s, -, hsize, hexact, -, hseparate, -⟩ :=
    Reachable.distinctCount_eq (.ofRows "a" _ {} hc) hfew
  obtain ⟨hs, hcount, -⟩ := hexact (hseparate (by decide)) hone
  exact ⟨c, hc, hfew, s, hs, hcount.trans hkeys, hsize.trans hkeys⟩

/-- The decimals zero and minus one unit have different keys but the same bits, since the word of
the second has all bits set. The word that is not a number and that of the opposite sign have one
key but different bits. -/
theorem distinctCount_of_two_decimals_and_two_nans :
    (∃ c : Column .decimal,
      (ofRows "c" [some Decimal.zero, some (Decimal.mk (-1) (by decide) (by decide))] {}).result
          = .ok c ∧
        distinctKeys c.values = 2 ∧ 2 ≤ 2 * 2 ^ Counter.precisionFor c.values.length ∧
        c.groups.groups.size = 2 ∧ ∃ s, c.stats.result = .ok s ∧ s.distinctCount = 1) ∧
    ∃ c : Column .float64,
      (ofRows "c" [some (Word.ofNat binary64 binary64.nanWord),
        some (Word.ofNat binary64 (binary64.signWord + binary64.nanWord))] {}).result = .ok c ∧
        distinctKeys c.values = 1 ∧ 1 ≤ 2 * 2 ^ Counter.precisionFor c.values.length ∧
        c.groups.groups.size = 1 ∧ ∃ s, c.stats.result = .ok s ∧ s.distinctCount = 2 := by
  constructor
  · obtain ⟨c, hc, hvalues⟩ : ∃ c : Column .decimal,
        (ofRows "c" [some Decimal.zero, some (Decimal.mk (-1) (by decide) (by decide))] {}).result
            = .ok c ∧
          c.values = [Decimal.zero, Decimal.mk (-1) (by decide) (by decide)] := ⟨_, rfl, rfl⟩
    obtain ⟨hkeys, hbits, hlimit⟩ : distinctKeys c.values = 2 ∧ distinctBits c.values = 1 ∧
        2 ≤ 2 * 2 ^ Counter.precisionFor c.values.length := by
      rw [hvalues]
      decide
    obtain ⟨s, -, hs, -, -⟩ := c.exists_stats
    have hcount := (Reachable.countsBits (.ofRows "c" _ {} hc) hs (by omega)).2
    exact ⟨c, hc, hkeys, hlimit, c.size_groups.trans hkeys, s, hs, hcount.trans hbits⟩
  · obtain ⟨c, hc, hvalues⟩ : ∃ c : Column .float64,
        (ofRows "c" [some (Word.ofNat binary64 binary64.nanWord),
          some (Word.ofNat binary64 (binary64.signWord + binary64.nanWord))] {}).result = .ok c ∧
          c.values = [Word.ofNat binary64 binary64.nanWord,
            Word.ofNat binary64 (binary64.signWord + binary64.nanWord)] := ⟨_, rfl, rfl⟩
    obtain ⟨hkeys, hbits, hlimit⟩ : distinctKeys c.values = 1 ∧ distinctBits c.values = 2 ∧
        2 ≤ 2 * 2 ^ Counter.precisionFor c.values.length := by
      rw [hvalues]
      decide
    obtain ⟨s, -, hs, -, -⟩ := c.exists_stats
    have hcount := (Reachable.countsBits (.ofRows "c" _ {} hc) hs (hbits ▸ hlimit)).2
    exact ⟨c, hc, hkeys, by omega, c.size_groups.trans hkeys, s, hs, hcount.trans hbits⟩

/-! ### The order of the rows -/

lemma Reachable.len_sub_nullCount (h : c.Reachable) : c.len - c.nullCount = c.values.length :=
  h.holds.2.len_sub_nullCount

/-- **Distinct counts do not depend on the order of the values.** What a counter does with a list of
words is one of its runs over them. Two runs over the same set of words, in any order, with any
repetitions and with any order in which a set is put into a sketch, end in the same state: with the
set of all hashes if they are no more than twice the registers of the sketch, otherwise with the
sketch that has in each register the largest rank of the hashes that fall in it. So they give the
same estimate. Columns of the same rows in any order have the same distinct count, the estimate of
every run over the bits of their values. -/
theorem distinctCount_order_free :
    (∀ (rows : ℕ) (words : List UInt64), ∃ c,
      ((Edit.forEach words Counter.insert).runOn (Counter.forRows rows)).result = .ok c ∧
        Counter.Run (Counter.forRows rows) words c) ∧
    (∀ (rows : ℕ) (words words' : List UInt64) (c d : Counter),
      (∀ bits, bits ∈ words ↔ bits ∈ words') →
      Counter.Run (Counter.forRows rows) words c → Counter.Run (Counter.forRows rows) words' d →
        c.Holds (Counter.precisionFor rows) (words.toFinset.image mix) ∧
        c.SameState d ∧ c.estimate = d.estimate) ∧
    ∀ {k : Kind} {a b : Column k}, a.Reachable → b.Reachable → a.rows.Perm b.rows →
      ∃ s t, a.stats.result = .ok s ∧ b.stats.result = .ok t ∧
        s.distinctCount = t.distinctCount ∧
        ∀ c, Counter.Run (Counter.forRows (b.len - b.nullCount))
          (b.values.map Kind.Value.hashBits) c → s.distinctCount = c.estimate := by
  refine ⟨fun rows words => ?_, fun rows words words' c d hset hc hd => ?_, ?_⟩
  · obtain ⟨c, hc, hrun⟩ := Counter.exists_run words (Counter.forRows rows)
    exact ⟨c, hc.result_runOn, hrun⟩
  · have hsame := hc.sameState hset hd
    exact ⟨hc.holds, hsame, hsame.estimate_eq⟩
  · intro k a b ha hb hperm
    have hvalues : a.values.Perm b.values := hperm.filterMap id
    have hset : ∀ bits, bits ∈ a.values.map Kind.Value.hashBits ↔
        bits ∈ b.values.map Kind.Value.hashBits := fun _ => (hvalues.map _).mem_iff
    obtain ⟨s, c, hs, hc, hcount⟩ := a.exists_stats
    obtain ⟨t, d, ht, hd, hcount'⟩ := b.exists_stats
    -- the counters are for the same number of values
    rw [ha.len_sub_nullCount, hvalues.length_eq, ← hb.len_sub_nullCount] at hc
    refine ⟨s, t, hs, ht, ?_, fun e he => ?_⟩
    · rw [hcount, hcount', (hc.sameState hset hd).estimate_eq]
    · rw [hcount, (hc.sameState hset he).estimate_eq]

/-- More words than a set may hold, counted forwards and backwards, end in one sketch. Two columns
of the same four rows have one distinct count. -/
theorem distinctCount_order_free_of_reversed :
    (∃ s : Sketch,
      ((Edit.forEach ((List.range 2049).map UInt64.ofNat) Counter.insert).runOn
        (Counter.forRows 0)).result = .ok (.sketch s) ∧
      ((Edit.forEach ((List.range 2049).map UInt64.ofNat).reverse Counter.insert).runOn
        (Counter.forRows 0)).result = .ok (.sketch s)) ∧
    ∃ (a b : Column .int16) (s t : Stats),
      (ofRows "a" [some 3, none, some 3, some 5] {}).result = .ok a ∧
      (ofRows "a" [some 5, some 3, none, some 3] {}).result = .ok b ∧
      a.stats.result = .ok s ∧ b.stats.result = .ok t ∧ s.distinctCount = t.distinctCount := by
  obtain ⟨hruns, hsame, hcolumns⟩ := distinctCount_order_free
  constructor
  · set words := (List.range 2049).map UInt64.ofNat with hwords
    have hcard : (words.toFinset.image mix).card = 2049 := by
      rw [Counter.card_image_mix, hwords, Counter.card_first_words (by decide)]
    obtain ⟨c, hc, hrun⟩ := hruns 0 words
    obtain ⟨d, hd, hrun'⟩ := hruns 0 words.reverse
    obtain ⟨hholds, hstate, -⟩ :=
      hsame 0 words words.reverse c d (fun _ => List.mem_reverse.symm) hrun hrun'
    rcases c with ⟨seen, p⟩ | s
    · have hfew := hholds.2.2
      rw [hcard] at hfew
      exact absurd hfew (by decide)
    · rcases d with ⟨seen, p⟩ | t
      · exact hstate.elim
      · obtain rfl : s = t := hstate
        exact ⟨s, hc, hd⟩
  · obtain ⟨a, b, ha, hb, hperm⟩ : ∃ a b : Column .int16,
        (ofRows "a" [some 3, none, some 3, some 5] {}).result = .ok a ∧
        (ofRows "a" [some 5, some 3, none, some 3] {}).result = .ok b ∧
          a.rows.Perm b.rows := ⟨_, _, rfl, rfl, by decide⟩
    obtain ⟨s, t, hs, ht, hcount, -⟩ :=
      hcolumns (.ofRows "a" _ {} ha) (.ofRows "a" _ {} hb) hperm
    exact ⟨a, b, s, t, ha, hb, hs, ht, hcount⟩

end Column

end Columnar
