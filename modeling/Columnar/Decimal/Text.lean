import Columnar.Decimal.Basic
import Columnar.Text.Blank
import Columnar.Text.Quoted
/-!
# Decimal text

A decimal is written as an optional minus sign, its whole part and, unless it is whole, a point
and its fraction without zeros at the end. A reader takes more: white space around the number,
a plus sign, leading zeros, a whole part or a fraction left out, and up to ten fractional digits.
-/

namespace Columnar.Decimal

/-- The ten digits of a fraction of one, most significant first. -/
def fractionDigits (n : Nat) : List Char :=
  let digits := Nat.toDigits 10 n
  List.replicate (scale - digits.length) '0' ++ digits

/-- The characters of the text of a decimal. -/
def textChars (d : Decimal) : List Char :=
  let magnitude := d.raw.natAbs
  let sign := if d.raw < 0 then ['-'] else []
  let whole := Nat.toDigits 10 (magnitude / factor)
  let fraction := magnitude % factor
  let fraction :=
    if fraction = 0 then []
    else '.' :: ((fractionDigits fraction).reverse.dropWhile (· == '0')).reverse
  sign ++ whole ++ fraction

/-- The text of a decimal. -/
def text (d : Decimal) : String := String.ofList d.textChars

/-- The number that a string of digits denotes. -/
def digitsValue (digits : List Char) : Nat :=
  digits.foldl (fun n c => 10 * n + (c.toNat - '0'.toNat)) 0

/-- A text that is not a decimal. -/
structure ParseError where
  /-- The whole text, white space included. -/
  input : String
deriving DecidableEq, Repr

/-- The wording of a failed reading, with the text in quotes. -/
def ParseError.message (e : ParseError) : String :=
  s!"invalid decimal literal: {Text.quote e.input}"

/-- The sign of a number and the characters after it. -/
def splitSign : List Char → Bool × List Char
  | '-' :: rest => (true, rest)
  | '+' :: rest => (false, rest)
  | chars => (false, chars)

/-- The characters before and after the first point. -/
def splitPoint (chars : List Char) : List Char × List Char :=
  (chars.takeWhile (· != '.'), (chars.dropWhile (· != '.')).drop 1)

/-- Read a decimal from characters without white space around it. -/
def ofChars? (chars : List Char) : Option Decimal :=
  let (negative, digits) := splitSign chars
  let (whole, fraction) := splitPoint digits
  if whole.isEmpty && fraction.isEmpty then none
  else if scale < fraction.length then none
  else if !(whole ++ fraction).all Char.isDigit then none
  else
    let units := digitsValue whole * factor +
      digitsValue fraction * Nat.pow 10 (scale - fraction.length)
    if units < 1 <<< 127 then ofRaw? (if negative then -units else units) else none

/-- Read a decimal from a text. -/
def parse (s : String) : Except ParseError Decimal :=
  match ofChars? (Text.trimBlank s.toList) with
  | some d => .ok d
  | none => .error ⟨s⟩

end Columnar.Decimal
