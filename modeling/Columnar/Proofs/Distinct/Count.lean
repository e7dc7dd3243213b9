import Columnar.Distinct.Counter
import Columnar.Proofs.Distinct.Mix
import Columnar.Proofs.Edit
/-!
# Counting below the limit

Until it spills, a counter holds the set of the mixed forms of what it has counted. It spills only
when a form beyond its limit arrives; as long as no more different words are counted, it ends with
the set of all of their mixed forms, and these are as many as the words.
-/

namespace Columnar.Distinct.Counter

/-! ### Sets of hashes -/

/-- The size of a set of hashes is the number of its elements. -/
lemma size_eq_card {seen : Std.HashSet UInt64} {hashes : Finset UInt64}
    (h : ∀ x, x ∈ seen ↔ x ∈ hashes) : seen.size = hashes.card := by
  have hnodup : seen.toList.Nodup :=
    seen.distinct_toList.imp fun hne heq => by simp [heq] at hne
  have hset : seen.toList.toFinset = hashes := by
    ext x
    rw [List.mem_toFinset, Std.HashSet.mem_toList, h]
  rw [← hset, List.toFinset_card_of_nodup hnodup, Std.HashSet.length_toList]

lemma mem_insert_mix {seen : Std.HashSet UInt64} {hashes : Finset UInt64}
    (h : ∀ x, x ∈ seen ↔ x ∈ hashes) (bits : UInt64) (x : UInt64) :
    x ∈ seen.insert (mix bits) ↔ x ∈ Insert.insert (mix bits) hashes := by
  rw [Std.HashSet.mem_insert, Finset.mem_insert, h, beq_iff_eq, eq_comm]

/-! ### One word -/

/-- A counter spills on a word that its set has neither room for nor has already. -/
lemma spills_iff {seen : Std.HashSet UInt64} {precision : ℕ} {hash : UInt64} :
    (exactLimit precision ≤ seen.size && !seen.contains hash) = true ↔
      exactLimit precision ≤ seen.size ∧ hash ∉ seen := by
  rw [Bool.and_eq_true, decide_eq_true_eq, Bool.not_eq_true', ← Bool.not_eq_true,
    ← Std.HashSet.mem_iff_contains]

/-- A counter that has room for the mixed form of a word, or has it already, takes it in without a
report. -/
lemma insert_exact {seen : Std.HashSet UInt64} {hashes : Finset UInt64} {precision : ℕ}
    {bits : UInt64} (h : ∀ x, x ∈ seen ↔ x ∈ hashes)
    (hroom : (Insert.insert (mix bits) hashes).card ≤ exactLimit precision) :
    Counter.insert bits (.exact seen precision)
      = ⟨.ok (), .exact (seen.insert (mix bits)) precision, #[]⟩ := by
  have hstay : ¬ (exactLimit precision ≤ seen.size && !seen.contains (mix bits)) = true := by
    rw [spills_iff, h, size_eq_card h]
    rintro ⟨hfull, hnew⟩
    rw [Finset.card_insert_of_notMem hnew] at hroom
    omega
  simp only [Counter.insert, if_neg hstay]

/-! ### A list of words -/

/-- The first word of a list is counted before the others. -/
lemma insert_union_image_mix (hashes : Finset UInt64) (word : UInt64) (words : List UInt64) :
    Insert.insert (mix word) hashes ∪ words.toFinset.image mix
      = hashes ∪ (word :: words).toFinset.image mix := by
  rw [Finset.insert_union, ← Finset.union_insert, ← Finset.image_insert, ← List.toFinset_cons]

/-- A counter that has room for the mixed forms of all words of a list takes them in one by one. -/
lemma forEach_insert_exact {seen : Std.HashSet UInt64} {hashes : Finset UInt64} {precision : ℕ}
    (words : List UInt64) (h : ∀ x, x ∈ seen ↔ x ∈ hashes)
    (hroom : (hashes ∪ words.toFinset.image mix).card ≤ exactLimit precision) :
    ∃ seen', (Edit.forEach words Counter.insert) (.exact seen precision)
        = ⟨.ok (), .exact seen' precision, #[]⟩ ∧
      ∀ x, x ∈ seen' ↔ x ∈ hashes ∪ words.toFinset.image mix := by
  induction words generalizing seen hashes with
  | nil => exact ⟨seen, rfl, by simpa using h⟩
  | cons word words ih =>
    have hunion := insert_union_image_mix hashes word words
    have hword : Counter.insert word (.exact seen precision) = _ :=
      insert_exact h (le_trans (Finset.card_le_card (hunion ▸ Finset.subset_union_left)) hroom)
    obtain ⟨seen', hrest, hmem⟩ := ih (mem_insert_mix h word) (hunion ▸ hroom)
    refine ⟨seen', ?_, hunion ▸ hmem⟩
    rw [Edit.forEach_cons]
    exact Edit.bind_eq (f := fun _ => Edit.forEach words Counter.insert) hword hrest

/-- The mixed forms of the words of a list are as many as its different words. -/
lemma card_image_mix (words : List UInt64) :
    (words.toFinset.image mix).card = words.toFinset.card :=
  Finset.card_image_of_injective _ mix_injective

/-- The first `n` words are `n` different ones. -/
lemma card_first_words {n : ℕ} (hn : n ≤ UInt64.size) :
    ((List.range n).map UInt64.ofNat).toFinset.card = n := by
  have hnodup : ((List.range n).map UInt64.ofNat).Nodup := by
    refine List.Nodup.map_on (fun i hi j hj h => ?_) List.nodup_range
    rw [List.mem_range] at hi hj
    rwa [← UInt64.toNat_inj, UInt64.toNat_ofNat_of_lt' (hi.trans_le hn),
      UInt64.toNat_ofNat_of_lt' (hj.trans_le hn)] at h
  rw [List.toFinset_card_of_nodup hnodup, List.length_map, List.length_range]

/-- A counter that has not spilled counts the words whose mixed forms it has. -/
lemma estimate_exact {seen : Std.HashSet UInt64} {words : List UInt64} (precision : ℕ)
    (h : ∀ x, x ∈ seen ↔ x ∈ words.toFinset.image mix) :
    (Counter.exact seen precision).estimate = words.toFinset.card := by
  rw [estimate, size_eq_card h, card_image_mix]

/-- If no more different words are counted than the limit for the number of rows, the counter does
not spill, and nothing is reported. -/
lemma forRows_stays_exact (rows : ℕ) (words : List UInt64)
    (hfew : words.toFinset.card ≤ exactLimit (precisionFor rows)) :
    ∃ seen : Std.HashSet UInt64,
      (Edit.forEach words Counter.insert).runOn (forRows rows)
        = ⟨.ok (.exact seen (precisionFor rows)), #[]⟩ ∧
      ∀ x, x ∈ seen ↔ x ∈ words.toFinset.image mix := by
  have hempty : ∀ x, x ∈ (∅ : Std.HashSet UInt64) ↔ x ∈ (∅ : Finset UInt64) := by simp
  obtain ⟨seen, hrun, hmem⟩ :=
    forEach_insert_exact words hempty (by rwa [Finset.empty_union, card_image_mix])
  refine ⟨seen, ?_, by rwa [Finset.empty_union] at hmem⟩
  rw [Edit.runOn, forRows]
  simp only [hrun]

/-- **A counter is exact up to its limit.** If no more different words are counted than the limit
for the number of rows, nothing is reported, and the estimate is the number of different words. -/
theorem forRows_exact (rows : ℕ) (words : List UInt64)
    (hfew : words.toFinset.card ≤ exactLimit (precisionFor rows)) :
    ∃ counter, (Edit.forEach words Counter.insert).runOn (forRows rows) = ⟨.ok counter, #[]⟩ ∧
      counter.estimate = words.toFinset.card := by
  obtain ⟨seen, hrun, hmem⟩ := forRows_stays_exact rows words hfew
  exact ⟨_, hrun, estimate_exact _ hmem⟩

end Columnar.Distinct.Counter
