import Columnar.Proofs.Distinct.Order
/-!
# The exact phase

A counter begins with a set of hashes, and becomes a sketch with the first hash that the set has no
room for. As the mixer is injective, the set has as many hashes as different words have been
counted. So how long the exact phase lasts is decided by the words alone: through every list with no
more than twice as many different words as the sketch would have registers, whatever their order and
repetitions, and up to the first word beyond these.
-/

namespace Columnar.Distinct.Counter

variable {rows : ℕ} {before words : List UInt64}

/-- A list has no more different words than one that it begins. -/
lemma card_toFinset_before_le (h : before <+: words) :
    before.toFinset.card ≤ words.toFinset.card :=
  Finset.card_le_card fun _ hword => List.mem_toFinset.2 (h.subset (List.mem_toFinset.1 hword))

/-- The counter has taken in the words of a list without a report, is still a set, and has as many
hashes as there are different words in the list. -/
def CountsExactly (rows : ℕ) (words : List UInt64) : Prop :=
  ∃ seen : Std.HashSet UInt64,
    (Edit.forEach words Counter.insert).runOn (forRows rows)
      = ⟨.ok (.exact seen (precisionFor rows)), #[]⟩ ∧
    (Counter.exact seen (precisionFor rows)).estimate = words.toFinset.card

/-- The counter has become a sketch. -/
def Spills (rows : ℕ) (words : List UInt64) : Prop :=
  ∃ s : Sketch, ((Edit.forEach words Counter.insert).runOn (forRows rows)).result = .ok (.sketch s)

lemma countsExactly_of_few (hfew : words.toFinset.card ≤ 2 * 2 ^ precisionFor rows) :
    CountsExactly rows words := by
  rw [← exactLimit_eq] at hfew
  obtain ⟨seen, hrun, hmem⟩ := forRows_stays_exact rows words hfew
  exact ⟨seen, hrun, estimate_exact _ hmem⟩

lemma spills_of_many (hmany : 2 * 2 ^ precisionFor rows < words.toFinset.card) :
    Spills rows words := by
  obtain ⟨d, hyields, hrun⟩ := exists_run words (forRows rows)
  have hholds := hrun.holds
  rcases d with ⟨seen, precision⟩ | s
  · -- a set has no more hashes than its limit
    have hcard := hholds.2.2
    rw [card_image_mix] at hcard
    exact absurd hcard (Nat.not_le.2 hmany)
  · exact ⟨s, hyields.result_runOn⟩

/-- **The exact phase counts exactly.** The mixer is injective. Therefore a counter for any number
of rows takes in every list of words of which no more than `2 * 2 ^ precision` are different without
a spill, neither at its end nor on the way, and its estimate is always the number of different words
so far; and it spills on every list with more different words. -/
theorem exact_phase :
    Function.Injective mix ∧
    ∀ (rows : ℕ) (words : List UInt64),
      (words.toFinset.card ≤ 2 * 2 ^ precisionFor rows →
        ∀ before, before <+: words → CountsExactly rows before) ∧
      (2 * 2 ^ precisionFor rows < words.toFinset.card → Spills rows words) := by
  refine ⟨mix_injective, fun rows words => ⟨fun hfew before hbegins => ?_, spills_of_many⟩⟩
  exact countsExactly_of_few ((card_toFinset_before_le hbegins).trans hfew)

/-- A counter for 4096 rows has room for 2048 words, and takes in all of them twice. One word more,
and it spills. -/
theorem exact_phase_of_full :
    CountsExactly 4096 ((List.range 2048 ++ List.range 2048).map UInt64.ofNat) ∧
      ((List.range 2048 ++ List.range 2048).map UInt64.ofNat).toFinset.card = 2048 ∧
      Spills 4096 ((List.range 2049).map UInt64.ofNat) := by
  have hlimit : 2 * 2 ^ precisionFor 4096 = 2048 := by decide
  have hcard : ((List.range 2048 ++ List.range 2048).map UInt64.ofNat).toFinset.card = 2048 := by
    rw [List.map_append, List.toFinset_append, Finset.union_self, card_first_words (by decide)]
  refine ⟨?_, hcard, ?_⟩
  · exact (exact_phase.2 4096 _).1 (hcard.trans hlimit.symm).le _ List.prefix_rfl
  · refine (exact_phase.2 4096 _).2 ?_
    rw [card_first_words (by decide), hlimit]
    exact Nat.lt_succ_self 2048

end Columnar.Distinct.Counter
