import Columnar.Ieee.Format
/-!
# The shortest decimal text of a floating-point number

A floating-point number is written with the fewest significant digits that still read back as the
same number, and of those digit strings with the one closest to it. The search is carried out in
exact arithmetic: the numbers that read back as `m · 2 ^ q` form an interval, whose ends belong to
it when `m` is even, and the two neighbours of the number on each decimal grid are tried, coarsest
grid first. Numbers are written in positional notation, never with an exponent.
-/

namespace Columnar.Ieee

/-- A positive decimal number `digits · 10 ^ exponent`. -/
structure DecimalForm where
  /-- The significant digits as one number. -/
  digits : Nat
  /-- The place of the last digit. -/
  exponent : Int
deriving DecidableEq, Repr

/-- The number of decimal digits of a natural number. -/
def digitCount (n : Nat) : Nat := (Nat.toDigits 10 n).length

/-- A number, the ends of the interval that rounds to it, and whether the ends belong to the
interval; all three over one denominator. -/
structure Rounding where
  /-- The number. -/
  value : Nat
  /-- The lower end of the interval. -/
  lower : Nat
  /-- The upper end of the interval. -/
  upper : Nat
  /-- The denominator of all three. -/
  denominator : Nat
  /-- Whether the ends round to the number as well. -/
  closed : Bool

namespace Rounding

/-- The interval around the positive number `m · 2 ^ q` of a format. Below a power of two the
format is twice as fine, except at the smallest exponent. -/
def around (f : Format) (m : Nat) (q : Int) : Rounding :=
  let below := if m = 1 <<< f.fractionBits ∧ f.minExponent < q then 1 else 2
  let up := (q - 2).toNat
  { value := (4 * m) <<< up
    lower := (4 * m - below) <<< up
    upper := (4 * m + 2) <<< up
    denominator := 1 <<< (2 - q).toNat
    closed := m % 2 = 0 }

/-- The place of the leading decimal digit. -/
def leadingPlace (r : Rounding) : Int :=
  if r.denominator ≤ r.value then (digitCount (r.value / r.denominator) : Int) - 1
  else -(digitCount ((r.denominator - 1) / r.value) : Int)

/-- The closest number with its last digit at place `e` that rounds to the value, if there is
one. Of two that are equally close the larger is taken. -/
def onGrid? (r : Rounding) (e : Int) : Option DecimalForm :=
  let scale := Nat.pow 10 (-e).toNat
  let unit := r.denominator * Nat.pow 10 e.toNat
  let value := r.value * scale
  let rounds (c : Nat) : Bool :=
    let x := c * unit
    let lower := r.lower * scale
    let upper := r.upper * scale
    if r.closed then decide (lower ≤ x ∧ x ≤ upper) else decide (lower < x ∧ x < upper)
  let c := value / unit
  match rounds c, rounds (c + 1) with
  | true, true => some ⟨if 2 * (value % unit) < unit then c else c + 1, e⟩
  | true, false => some ⟨c, e⟩
  | false, true => some ⟨c + 1, e⟩
  | false, false => none

end Rounding

/-- The largest number of digits that is ever needed to tell two numbers apart. -/
def maxDigits : Nat := 17

/-- The shortest decimal that reads back as the positive number `m · 2 ^ q` of a format. -/
def shortest (f : Format) (m : Nat) (q : Int) : DecimalForm :=
  let r := Rounding.around f m q
  let place := r.leadingPlace
  ((List.range maxDigits).findSome? fun (n : Nat) => r.onGrid? (place - n)).getD ⟨0, 0⟩

/-- Positional notation. Zeros at the end of a fraction are not written. -/
def DecimalForm.text (d : DecimalForm) : String :=
  let digits := Nat.toDigits 10 d.digits
  if 0 ≤ d.exponent then
    String.ofList (digits ++ List.replicate d.exponent.toNat '0')
  else
    let places := (-d.exponent).toNat
    let padded := List.replicate (places + 1 - digits.length) '0' ++ digits
    let whole := padded.take (padded.length - places)
    let fraction := padded.drop (padded.length - places)
    let fraction := (fraction.reverse.dropWhile (· == '0')).reverse
    if fraction.isEmpty then String.ofList whole
    else String.ofList (whole ++ '.' :: fraction)

/-- The text of a word of a format. A zero keeps its sign. -/
def Format.text (f : Format) (word : Nat) : String :=
  match f.decode word with
  | .nan => "NaN"
  | .infinity negative => if negative then "-inf" else "inf"
  | .finite negative m q =>
    let sign := if negative then "-" else ""
    if m = 0 then sign ++ "0" else sign ++ (shortest f m q).text

end Columnar.Ieee
