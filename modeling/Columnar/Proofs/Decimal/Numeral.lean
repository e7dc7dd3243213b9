import Columnar.Proofs.Decimal.RoundTrip
/-!
# The numerals that are read as decimals

A numeral is a sign or none, digits, and a point with further digits or none; there is a digit
before or after the point. A numeral fits if it has at most ten digits after the point and denotes,
without its sign, at most the largest number of units. The reader removes the white space around a
text and accepts what is left exactly if this spells a numeral that fits.

The reader never looks at a numeral; it cuts the text at the sign and at the first point. Of the
characters that spell a numeral, these cuts find its parts, and conversely the parts that a text is
cut into, if they are digits, are those of a numeral spelled by the text.
-/

namespace Columnar

/-! ### White space around a text -/

namespace Text

/-- The text `t` is what is left of `s` when white space is removed from both ends. -/
structure Strips (s t : List Char) : Prop where
  eq_append : ∃ front back, s = front ++ t ++ back ∧
    (∀ c ∈ front, isBlank c = true) ∧ ∀ c ∈ back, isBlank c = true
  isBlank_head : ∀ c ∈ t.head?, isBlank c = false
  isBlank_getLast : ∀ c ∈ t.getLast?, isBlank c = false

/-- What is left when the characters at the front that have a property are dropped begins with one
that does not have it. -/
lemma eq_false_of_mem_head?_dropWhile {p : Char → Bool} {s : List Char} {c : Char}
    (hc : c ∈ (s.dropWhile p).head?) : p c = false := by
  have h := List.head?_dropWhile_not p s
  rw [Option.mem_def.1 hc] at h
  exact h

theorem strips_trimBlank (s : List Char) : Strips s (trimBlank s) := by
  set r := s.dropWhile isBlank with hr
  have hback : r = trimBlank s ++ (r.reverse.takeWhile isBlank).reverse := by
    rw [trimBlank, ← hr, ← List.reverse_append, List.takeWhile_append_dropWhile,
      List.reverse_reverse]
  refine ⟨⟨s.takeWhile isBlank, (r.reverse.takeWhile isBlank).reverse, ?_, ?_, ?_⟩, ?_, ?_⟩
  · rw [List.append_assoc, ← hback, hr, List.takeWhile_append_dropWhile]
  · exact fun c hc => List.mem_takeWhile_imp hc
  · exact fun c hc => List.mem_takeWhile_imp (List.mem_reverse.1 hc)
  · -- a first character that is left at the end is the first one left at the front
    intro c hc
    have hhead : c ∈ r.head? := by
      rw [hback, List.head?_append, Option.mem_def.1 hc]
      rfl
    exact eq_false_of_mem_head?_dropWhile hhead
  · intro c hc
    rw [trimBlank, List.getLast?_reverse] at hc
    exact eq_false_of_mem_head?_dropWhile hc

end Text

namespace Decimal

/-! ### Numerals -/

/-- How the sign of a numeral is written. -/
inductive Sign where
  | absent
  | plus
  | minus
deriving DecidableEq

namespace Sign

/-- The characters of a sign. -/
def chars : Sign → List Char
  | absent => []
  | plus => ['+']
  | minus => ['-']

/-- Whether a sign makes its number negative. -/
def isNegative : Sign → Bool
  | minus => true
  | _ => false

end Sign

/-- A decimal numeral, by the way it is spelled. -/
structure Numeral where
  sign : Sign
  /-- The digits before the point. -/
  whole : List Char
  /-- The digits after the point, if there is a point. -/
  fraction : Option (List Char)
  isDigit_of_mem_whole : ∀ c ∈ whole, c.isDigit = true
  isDigit_of_mem_fraction : ∀ c ∈ fraction.getD [], c.isDigit = true
  /-- There is a digit before or after the point. -/
  ne_nil : whole ++ fraction.getD [] ≠ []

namespace Numeral

/-- The digits after the point; there are none without a point. -/
def decimals (n : Numeral) : List Char := n.fraction.getD []

/-- The characters after the sign. -/
def unsignedChars (n : Numeral) : List Char := n.whole ++ n.fraction.elim [] ('.' :: ·)

/-- The characters that spell the numeral. -/
def chars (n : Numeral) : List Char := n.sign.chars ++ n.unsignedChars

/-- The number of units of `10 ^ -10` that the numeral denotes without its sign, if it has at most
ten decimals. -/
def units (n : Numeral) : ℕ :=
  Nat.ofDigitChars 10 n.whole 0 * 10 ^ 10
    + Nat.ofDigitChars 10 n.decimals 0 * 10 ^ (10 - n.decimals.length)

/-- The number of units with the sign. -/
def signedUnits (n : Numeral) : ℤ := signed n.sign.isNegative n.units

/-- The numeral has at most ten decimals and denotes, without its sign, at most the largest number
of units. -/
def Fits (n : Numeral) : Prop := n.decimals.length ≤ 10 ∧ n.units ≤ 2 ^ 127 - 1

/-- Whether a numeral fits is decided by its digits. -/
instance (n : Numeral) : Decidable n.Fits := inferInstanceAs (Decidable (_ ∧ _))

/-! ### Cutting a text into the parts of a numeral -/

/-- The sign of a numeral is found. -/
lemma splitSign_chars (n : Numeral) :
    splitSign n.chars = (n.sign.isNegative, n.unsignedChars) := by
  rcases n with ⟨_ | _ | _, whole, fraction, hwhole, hfraction, hne⟩
  · -- no sign: the first character is a digit or the point
    rcases whole with _ | ⟨c, whole⟩
    · rcases fraction with _ | fraction
      · exact absurd rfl hne
      · rfl
    · exact splitSign_signChars_append false (hwhole c List.mem_cons_self) _
  · rfl
  · rfl

/-- The point of a numeral is found. -/
lemma splitPoint_unsignedChars (n : Numeral) :
    splitPoint n.unsignedChars = (n.whole, n.decimals) :=
  splitPoint_append n.isDigit_of_mem_whole n.fraction

/-- A text is the sign that is found in it and the characters after it. -/
lemma exists_sign {chars unsigned : List Char} {negative : Bool}
    (h : splitSign chars = (negative, unsigned)) :
    ∃ sign : Sign, chars = sign.chars ++ unsigned := by
  rw [splitSign.eq_def] at h
  split at h
  · cases h
    exact ⟨.minus, rfl⟩
  · cases h
    exact ⟨.plus, rfl⟩
  · cases h
    exact ⟨.absent, rfl⟩

/-- A text is what stands before its first point, and the point with what stands after it. -/
lemma exists_fraction {chars whole decimals : List Char}
    (h : splitPoint chars = (whole, decimals)) :
    ∃ fraction : Option (List Char),
      chars = whole ++ fraction.elim [] ('.' :: ·) ∧ fraction.getD [] = decimals := by
  have happend := List.takeWhile_append_dropWhile (p := (· != '.')) (l := chars)
  cases h
  rcases hrest : chars.dropWhile (· != '.') with _ | ⟨c, rest⟩
  · rw [hrest] at happend
    exact ⟨none, happend.symm, rfl⟩
  · have hc : c ∈ (chars.dropWhile (· != '.')).head? := by
      rw [hrest]
      rfl
    obtain rfl : c = '.' := by simpa using Text.eq_false_of_mem_head?_dropWhile hc
    rw [hrest] at happend
    exact ⟨some rest, happend.symm, rfl⟩

/-! ### Reading a numeral -/

/-- What the reader does with the parts that it cuts a text into: they have to be digits, at least
one and at most ten of them after the point, and to denote a number of units below `2 ^ 127`. -/
lemma ofChars?_eq_some_iff (chars : List Char) (d : Decimal) {negative : Bool}
    {unsigned whole decimals : List Char} (hsign : splitSign chars = (negative, unsigned))
    (hpoint : splitPoint unsigned = (whole, decimals)) :
    ofChars? chars = some d ↔
      whole ++ decimals ≠ [] ∧ decimals.length ≤ scale ∧
        (∀ c ∈ whole ++ decimals, c.isDigit = true) ∧ numeralUnits whole decimals < 2 ^ 127 ∧
        d.raw = signed negative (numeralUnits whole decimals) := by
  have hempty : (whole.isEmpty && decimals.isEmpty) = true ↔ whole ++ decimals = [] := by simp
  have hdigits : (!(whole ++ decimals).all Char.isDigit) = true ↔
      ¬ ∀ c ∈ whole ++ decimals, c.isDigit = true := by
    rw [Bool.not_eq_true', ← Bool.not_eq_true, List.all_eq_true]
  rw [ofChars?, hsign]
  simp only [hpoint, hempty, hdigits, Option.ite_none_left_eq_some, Option.ite_none_right_eq_some,
    not_not, not_lt, ofRaw?_eq_some_iff, ne_eq]
  rfl

lemma numeralUnits_eq_units (n : Numeral) : numeralUnits n.whole n.decimals = n.units := by
  rw [numeralUnits, digitsValue_eq_ofDigitChars, digitsValue_eq_ofDigitChars]
  rfl

/-- A numeral is read if it fits, as the decimal of its units. -/
lemma ofChars?_chars_eq_some_iff (n : Numeral) (d : Decimal) :
    ofChars? n.chars = some d ↔ n.Fits ∧ d.raw = n.signedUnits := by
  have hdigits : ∀ c ∈ n.whole ++ n.decimals, c.isDigit = true := fun c hc =>
    (List.mem_append.1 hc).elim (n.isDigit_of_mem_whole c) (n.isDigit_of_mem_fraction c)
  rw [ofChars?_eq_some_iff _ d n.splitSign_chars n.splitPoint_unsignedChars,
    numeralUnits_eq_units, and_iff_right (show n.whole ++ n.decimals ≠ [] from n.ne_nil),
    and_iff_right hdigits, Nat.lt_iff_le_pred (by decide), ← and_assoc]
  rfl

/-- Nothing but numerals is read. -/
lemma exists_chars_eq {chars : List Char} {d : Decimal} (h : ofChars? chars = some d) :
    ∃ n : Numeral, n.chars = chars := by
  rcases hsign : splitSign chars with ⟨negative, unsigned⟩
  rcases hpoint : splitPoint unsigned with ⟨whole, decimals⟩
  obtain ⟨hne, -, hdigits, -⟩ := (ofChars?_eq_some_iff chars d hsign hpoint).1 h
  obtain ⟨sign, rfl⟩ := exists_sign hsign
  obtain ⟨fraction, rfl, rfl⟩ := exists_fraction hpoint
  exact ⟨⟨sign, whole, fraction, fun c hc => hdigits c (List.mem_append_left _ hc),
    fun c hc => hdigits c (List.mem_append_right _ hc), hne⟩, rfl⟩

/-- A numeral that fits denotes a decimal. -/
lemma Fits.exists_raw_eq {n : Numeral} (h : n.Fits) : ∃ d : Decimal, d.raw = n.signedUnits := by
  obtain ⟨-, hunits⟩ := h
  refine ⟨⟨n.signedUnits, ?_, ?_⟩, rfl⟩
  all_goals
    rw [signedUnits, signed, Nat.shiftLeft_eq]
    split_ifs
    · omega
    · omega

end Numeral

/-! ### Reading a text -/

lemma parse_eq_ok_iff_ofChars? (s : String) (d : Decimal) :
    parse s = .ok d ↔ ofChars? (Text.trimBlank s.toList) = some d := by
  rw [parse]
  rcases ofChars? (Text.trimBlank s.toList) with _ | e <;> simp

/-- **The reader accepts the numerals that fit.** What is left of a text without the white space
around it is read as a decimal exactly if it spells a numeral of at most ten decimals whose number
of units is at most the largest one, and then the decimal has these units, with the sign. Every
other text is refused as it stands. -/
theorem parse_eq_ok_iff (s : String) :
    Text.Strips s.toList (Text.trimBlank s.toList) ∧
      (∀ d, parse s = .ok d ↔
        ∃ n : Numeral, n.chars = Text.trimBlank s.toList ∧ n.Fits ∧ d.raw = n.signedUnits) ∧
      ((∃ d, parse s = .ok d) ↔ ∃ n : Numeral, n.chars = Text.trimBlank s.toList ∧ n.Fits) ∧
      (parse s = .error ⟨s⟩ ↔
        ¬ ∃ n : Numeral, n.chars = Text.trimBlank s.toList ∧ n.Fits) := by
  have hread : ∀ d, parse s = .ok d ↔
      ∃ n : Numeral, n.chars = Text.trimBlank s.toList ∧ n.Fits ∧ d.raw = n.signedUnits := by
    intro d
    rw [parse_eq_ok_iff_ofChars?]
    constructor
    · intro h
      obtain ⟨n, hn⟩ := Numeral.exists_chars_eq h
      rw [← hn] at h
      exact ⟨n, hn, (n.ofChars?_chars_eq_some_iff d).1 h⟩
    · rintro ⟨n, hn, h⟩
      rw [← hn]
      exact (n.ofChars?_chars_eq_some_iff d).2 h
  have hsome : (∃ d, parse s = .ok d) ↔
      ∃ n : Numeral, n.chars = Text.trimBlank s.toList ∧ n.Fits := by
    constructor
    · rintro ⟨d, hd⟩
      obtain ⟨n, hn, hfits, -⟩ := (hread d).1 hd
      exact ⟨n, hn, hfits⟩
    · rintro ⟨n, hn, hfits⟩
      obtain ⟨d, hd⟩ := hfits.exists_raw_eq
      exact ⟨d, (hread d).2 ⟨n, hn, hfits, hd⟩⟩
  refine ⟨Text.strips_trimBlank _, hread, hsome, ?_⟩
  rw [← hsome, parse]
  rcases ofChars? (Text.trimBlank s.toList) with _ | d <;> simp

end Decimal

end Columnar
