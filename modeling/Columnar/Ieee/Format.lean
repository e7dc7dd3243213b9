/-!
# Binary floating-point formats

A binary floating-point format packs a sign, a biased exponent and a fraction into one word. This
file reads a word of a format as a number `± m · 2 ^ q` with natural `m`, writes such a number back,
and gives the integer by which words are ordered: it grows with the number, the two zeros share
one, and everything that is not a number comes last.
-/

namespace Columnar.Ieee

/-- A binary interchange format, given by the widths of its two lower fields. -/
structure Format where
  /-- The width of the lowest field. -/
  fractionBits : Nat
  /-- The width of the field above it. -/
  exponentBits : Nat
deriving DecidableEq, Repr

/-- The format of 32-bit numbers. -/
def binary32 : Format := ⟨23, 8⟩

/-- The format of 64-bit numbers. -/
def binary64 : Format := ⟨52, 11⟩

/-- What a word of a format stands for. -/
inductive Number where
  | nan
  | infinity (negative : Bool)
  /-- The number `± m · 2 ^ q`; a zero keeps its sign. -/
  | finite (negative : Bool) (m : Nat) (q : Int)
deriving DecidableEq, Repr

namespace Format

variable (f : Format)

/-- The number of bits of a word: its two lower fields and the sign. -/
def width : Nat := f.fractionBits + f.exponentBits + 1

/-- The exponent of the last place of the numbers closest to zero. -/
def minExponent : Int := 2 - (1 <<< (f.exponentBits - 1) : Nat) - f.fractionBits

/-- The word of the positive infinity; words with a larger magnitude are not numbers. -/
def infinityWord : Nat := (1 <<< f.exponentBits - 1) <<< f.fractionBits

/-- The word of the sign bit alone. -/
def signWord : Nat := 1 <<< (f.fractionBits + f.exponentBits)

/-- The quiet word that is not a number. -/
def nanWord : Nat := f.infinityWord + 1 <<< (f.fractionBits - 1)

/-- Whether the sign bit of a word is set. -/
def isNegative (word : Nat) : Bool := word / f.signWord % 2 = 1

/-- A word without its sign bit. -/
def magnitude (word : Nat) : Nat := word % f.signWord

/-- Whether a word is not a number. -/
def isNaN (word : Nat) : Bool := f.infinityWord < f.magnitude word

/-- The number a word stands for. -/
def decode (word : Nat) : Number :=
  let negative := f.isNegative word
  let magnitude := f.magnitude word
  if f.infinityWord < magnitude then .nan
  else if magnitude = f.infinityWord then .infinity negative
  else
    let fraction := magnitude % 1 <<< f.fractionBits
    let exponent := magnitude >>> f.fractionBits
    if exponent = 0 then .finite negative fraction f.minExponent
    else .finite negative (1 <<< f.fractionBits + fraction) (f.minExponent + exponent - 1)

/-- The word of `± m · 2 ^ q`, for a number that the format has. The digits of `m` are moved up as
far as the fraction and the smallest exponent allow; the leading digit of a normal number then
adds the missing one to the exponent field. -/
def encodeFinite (negative : Bool) (m : Nat) (q : Int) : Nat :=
  let sign := if negative then f.signWord else 0
  if m = 0 then sign
  else
    let shift := min (f.fractionBits - m.log2) (q - f.minExponent).toNat
    sign + (q - shift - f.minExponent).toNat <<< f.fractionBits + m <<< shift

/-- The integer by which words are ordered. -/
def orderKey (word : Nat) : Int :=
  if f.isNaN word then f.signWord
  else if f.isNegative word then -(f.magnitude word : Int)
  else f.magnitude word

/-- The word by which a distinct count tells numbers apart. The two zeros share one; words that are
not numbers are kept as they are, although they share their key. -/
def countedWord (word : Nat) : Nat := if f.magnitude word = 0 then 0 else word

/-- The remainder of a division that truncates its quotient. It is computed without rounding and
has the sign of the dividend; there is none of an infinity, and none by zero. -/
def remainder (a b : Nat) : Nat :=
  match f.decode a, f.decode b with
  | .finite negative m q, .finite _ m' q' =>
    if m' = 0 then f.nanWord
    else
      let e := min q q'
      f.encodeFinite negative (m <<< (q - e).toNat % m' <<< (q' - e).toNat) e
  | .finite .., .infinity _ => a
  | _, _ => f.nanWord

end Format

end Columnar.Ieee
