import Columnar.Text.GraphemeExtend
import Columnar.Text.Unprintable
/-!
# Quoted text

A text is quoted by putting it between double quotes. Quotes and backslashes inside it, and the
characters that cannot be told from the output, are written as escapes.
-/

namespace Columnar.Text

/-- How one character is written inside quotes. -/
def escape (c : Char) : String :=
  match c with
  | '\x00' => "\\0"
  | '\t' => "\\t"
  | '\r' => "\\r"
  | '\n' => "\\n"
  | '\\' => "\\\\"
  | '"' => "\\\""
  | c =>
    if isGraphemeExtend c || isUnprintable c then
      "\\u\x7b" ++ String.ofList (Nat.toDigits 16 c.toNat) ++ "\x7d"
    else c.toString

/-- A text between double quotes. -/
def quote (s : String) : String :=
  "\"" ++ String.join (s.toList.map escape) ++ "\""

end Columnar.Text
