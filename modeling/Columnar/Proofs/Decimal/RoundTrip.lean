import Columnar.Proofs.Decimal.Digits
import Columnar.Proofs.Decimal.Exact
/-!
# Decimals through their text

The text of a decimal has no white space, one sign at most and one point at most, so that a reader
finds the whole part and the fraction that were written; these denote the magnitude. The reader
puts the magnitude together as a positive number before it applies the sign. Positive numbers end
one before negative ones: the text of the smallest decimal is refused, and every other decimal is
read back from its text.
-/

namespace Columnar

/-! ### The characters of a text -/

lemma Text.trimBlank_of_forall {s : List Char} (h : ∀ c ∈ s, Text.isBlank c = false) :
    Text.trimBlank s = s := by
  have hfront : s.dropWhile Text.isBlank = s := by
    refine List.dropWhile_eq_self_iff.2 fun hl => ?_
    rw [h _ (List.getElem_mem hl)]
    exact Bool.false_ne_true
  have hback : s.reverse.dropWhile Text.isBlank = s.reverse := by
    refine List.dropWhile_eq_self_iff.2 fun hl => ?_
    rw [h _ (List.mem_reverse.1 (List.getElem_mem hl))]
    exact Bool.false_ne_true
  rw [Text.trimBlank, hfront, hback, List.reverse_reverse]

lemma Text.isBlank_of_isDigit {c : Char} (h : c.isDigit = true) : Text.isBlank c = false := by
  obtain ⟨hlow, hhigh⟩ := Char.isDigit_iff_toNat.1 h
  have hlow : 48 ≤ c.toNat := hlow
  have hhigh : c.toNat ≤ 57 := hhigh
  simp only [Text.isBlank, Bool.or_eq_false_iff, Bool.and_eq_false_iff, decide_eq_false_iff_not,
    beq_eq_false_iff_ne]
  omega

namespace Decimal

lemma ne_of_isDigit {c d : Char} (hc : c.isDigit = true) (hd : d.isDigit = false) : c ≠ d := by
  rintro rfl
  exact Bool.noConfusion (hc.symm.trans hd)

/-! ### What a reader takes a text apart to -/

/-- The sign that a text is written with. -/
def signChars (negative : Bool) : List Char := if negative then ['-'] else []

/-- A fraction with the point before it, unless it has no digits. -/
def pointAndFraction (fraction : List Char) : List Char :=
  if fraction = [] then [] else '.' :: fraction

/-- A sign is found, and none where the text starts with a digit. -/
lemma splitSign_signChars_append (negative : Bool) {c : Char} (hc : c.isDigit = true)
    (rest : List Char) : splitSign (signChars negative ++ c :: rest) = (negative, c :: rest) := by
  cases negative with
  | true => rfl
  | false =>
    have hminus : c ≠ '-' := ne_of_isDigit hc rfl
    have hplus : c ≠ '+' := ne_of_isDigit hc rfl
    simp only [signChars, Bool.false_eq_true, if_false, List.nil_append]
    rw [splitSign]
    · exact fun rest' h => hminus (List.cons.inj h).1
    · exact fun rest' h => hplus (List.cons.inj h).1

/-- After some digits, a point is found if there is one. -/
lemma splitPoint_append {whole : List Char} (hwhole : ∀ c ∈ whole, c.isDigit = true)
    (fraction : Option (List Char)) :
    splitPoint (whole ++ fraction.elim [] ('.' :: ·)) = (whole, fraction.getD []) := by
  have hbefore : ∀ c ∈ whole, (c != '.') = true := fun c hc =>
    bne_iff_ne.2 (ne_of_isDigit (hwhole c hc) rfl)
  rw [splitPoint, List.takeWhile_append_of_pos hbefore, List.dropWhile_append_of_pos hbefore]
  rcases fraction with _ | fraction <;> simp

lemma splitPoint_append_pointAndFraction {whole : List Char}
    (hwhole : ∀ c ∈ whole, c.isDigit = true) (fraction : List Char) :
    splitPoint (whole ++ pointAndFraction fraction) = (whole, fraction) := by
  rw [pointAndFraction]
  split_ifs with hfraction
  · rw [hfraction]
    exact splitPoint_append hwhole none
  · exact splitPoint_append hwhole (some fraction)

/-- A numeral of digits is read as its number of units, as long as this is a positive number that
is in range. -/
lemma ofChars?_numeral (negative : Bool) {whole fraction : List Char} (hne : whole ≠ [])
    (hwhole : ∀ c ∈ whole, c.isDigit = true) (hfraction : ∀ c ∈ fraction, c.isDigit = true)
    (hlen : fraction.length ≤ scale) :
    ofChars? (signChars negative ++ whole ++ pointAndFraction fraction)
      = if numeralUnits whole fraction < 2 ^ 127
        then ofRaw? (signed negative (numeralUnits whole fraction)) else none := by
  have hsign : splitSign (signChars negative ++ whole ++ pointAndFraction fraction)
      = (negative, whole ++ pointAndFraction fraction) := by
    obtain ⟨c, rest, rfl⟩ := List.exists_cons_of_ne_nil hne
    rw [List.append_assoc, List.cons_append]
    exact splitSign_signChars_append negative (hwhole c List.mem_cons_self) _
  have hempty : (whole.isEmpty && fraction.isEmpty) = false := by
    rw [List.isEmpty_eq_false_iff.2 hne, Bool.false_and]
  have hdigits : (whole ++ fraction).all Char.isDigit = true :=
    List.all_eq_true.2 fun c hc => (List.mem_append.1 hc).elim (hwhole c) (hfraction c)
  rw [ofChars?, hsign]
  simp only [splitPoint_append_pointAndFraction hwhole, hempty, hdigits, Bool.false_eq_true,
    if_false, Bool.not_true, Nat.not_lt.2 hlen]
  rfl

/-! ### What a decimal is written as -/

/-- The text of a decimal is a numeral for its magnitude. -/
lemma textChars_eq_numeral (d : Decimal) :
    d.textChars = signChars (decide (d.raw < 0)) ++ Nat.toDigits 10 (d.raw.natAbs / factor)
      ++ pointAndFraction (trimmedFraction (d.raw.natAbs % factor)) := by
  have hlt : d.raw.natAbs % factor < factor := Nat.mod_lt _ (by decide)
  have hfraction : pointAndFraction (trimmedFraction (d.raw.natAbs % factor))
      = if d.raw.natAbs % factor = 0 then []
        else '.' :: trimmedFraction (d.raw.natAbs % factor) := by
    simp only [pointAndFraction, trimmedFraction_eq_nil_iff hlt]
  rw [hfraction]
  simp only [textChars, signChars, decide_eq_true_eq, trimmedFraction]

lemma isBlank_of_mem_textChars {d : Decimal} {c : Char} (hc : c ∈ d.textChars) :
    Text.isBlank c = false := by
  rw [textChars_eq_numeral, List.mem_append, List.mem_append] at hc
  rcases hc with (hc | hc) | hc
  · obtain rfl : c = '-' := by
      rw [signChars] at hc
      split_ifs at hc
      · exact List.mem_singleton.1 hc
      · exact absurd hc List.not_mem_nil
    rfl
  · exact Text.isBlank_of_isDigit (Nat.isDigit_of_mem_toDigits (by decide) le_rfl hc)
  · rw [pointAndFraction] at hc
    split_ifs at hc with hnil
    · exact absurd hc List.not_mem_nil
    · rcases List.mem_cons.1 hc with rfl | hc
      · rfl
      · exact Text.isBlank_of_isDigit (isDigit_of_mem_trimmedFraction hc)

/-- Only the smallest decimal has a magnitude that is not a decimal itself. -/
lemma natAbs_raw_lt_iff (d : Decimal) : d.raw.natAbs < 2 ^ 127 ↔ d ≠ min := by
  obtain ⟨hmin, hmax⟩ := inRange_raw d
  have hraw : d = min ↔ d.raw = -2 ^ 127 := by
    obtain ⟨raw, _, _⟩ := d
    simp [min]
  rw [Ne, hraw]
  omega

/-- The numeral in the text of a decimal is read as the decimal, unless it is the smallest. -/
lemma ofChars?_textChars (d : Decimal) :
    ofChars? d.textChars = if d = min then none else some d := by
  have hlt : d.raw.natAbs % factor < factor := Nat.mod_lt _ (by decide)
  rw [textChars_eq_numeral, ofChars?_numeral _ Nat.toDigits_ne_nil
    (fun c hc => Nat.isDigit_of_mem_toDigits (by decide) le_rfl hc)
    (fun c hc => isDigit_of_mem_trimmedFraction hc) (length_trimmedFraction_le hlt),
    numeralUnits_magnitude, ← eq_signed, (ofRaw?_eq_some_iff d.raw d).2 rfl]
  by_cases hd : d = min
  · rw [if_neg (fun h => (natAbs_raw_lt_iff d).1 h hd), if_pos hd]
  · rw [if_pos ((natAbs_raw_lt_iff d).2 hd), if_neg hd]

/-- There is no white space to remove from the text of a decimal. -/
lemma trimBlank_text (d : Decimal) : Text.trimBlank d.text.toList = d.textChars := by
  rw [text, String.toList_ofList]
  exact Text.trimBlank_of_forall fun c hc => isBlank_of_mem_textChars hc

/-- **A decimal is read back from its text, except for the smallest.** Its magnitude is out of range
as a positive number, and the reader refuses its text. -/
theorem parse_text (d : Decimal) :
    parse d.text = if d = min then .error ⟨d.text⟩ else .ok d := by
  rw [parse, trimBlank_text, ofChars?_textChars]
  split_ifs <;> rfl

/-- The text of the smallest decimal is refused, and so not read back. -/
theorem parse_text_min :
    parse min.text = .error ⟨"-17014118346046923173168730371.5884105728"⟩ ∧
      ¬ ∀ d : Decimal, parse d.text = .ok d := by
  have htext : min.text = "-17014118346046923173168730371.5884105728" := by decide
  have hparse : parse min.text = .error ⟨min.text⟩ := by
    rw [parse, trimBlank_text, ofChars?_textChars, if_pos rfl]
  refine ⟨htext ▸ hparse, fun h => ?_⟩
  cases hparse.symm.trans (h min)

end Decimal

end Columnar
