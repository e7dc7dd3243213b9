/-!
# UTF-16 code units

A code unit is a 16-bit word with the arithmetic of the unsigned 16-bit integers. Apart from the
surrogates, each is a character of its own.
-/

namespace Columnar

/-- A UTF-16 code unit. -/
structure Char16 where
  /-- The number of the unit. -/
  unit : UInt16
deriving DecidableEq, Repr, Inhabited

namespace Char16

/-- Sums wrap around, as those of unsigned 16-bit integers do. -/
instance : Add Char16 := ⟨fun a b => ⟨a.unit + b.unit⟩⟩

/-- Differences wrap around. -/
instance : Sub Char16 := ⟨fun a b => ⟨a.unit - b.unit⟩⟩

/-- Products wrap around. -/
instance : Mul Char16 := ⟨fun a b => ⟨a.unit * b.unit⟩⟩

/-- Quotients are cut off. -/
instance : Div Char16 := ⟨fun a b => ⟨a.unit / b.unit⟩⟩

/-- Remainders are those of the quotient cut off. -/
instance : Mod Char16 := ⟨fun a b => ⟨a.unit % b.unit⟩⟩

/-- Conjunction, bit by bit. -/
instance : AndOp Char16 := ⟨fun a b => ⟨a.unit &&& b.unit⟩⟩

/-- Disjunction, bit by bit. -/
instance : OrOp Char16 := ⟨fun a b => ⟨a.unit ||| b.unit⟩⟩

/-- Exclusive disjunction, bit by bit. -/
instance : XorOp Char16 := ⟨fun a b => ⟨a.unit ^^^ b.unit⟩⟩

/-- The character of a code unit; a surrogate has none. -/
def toChar? (c : Char16) : Option Char :=
  let n := c.unit.toNat
  if h : n.isValidChar then some (Char.ofNatAux n h) else none

/-- Why a character has no code unit of its own. -/
inductive ConversionError where
  /-- The character lies outside the range of one unit. -/
  | tooLarge
deriving DecidableEq, Repr

/-- The wording of a failed conversion. -/
def ConversionError.message : ConversionError → String
  | .tooLarge => "number too large to fit in target type"

/-- The code unit of a character that needs one only. -/
def ofChar (c : Char) : Except ConversionError Char16 :=
  if c.toNat < UInt16.size then .ok ⟨UInt16.ofNat c.toNat⟩ else .error .tooLarge

/-- The character of the unit, or the number of a surrogate in four hexadecimal digits. -/
def text (c : Char16) : String :=
  match c.toChar? with
  | some c => c.toString
  | none => "\\u\x7b" ++ String.ofList (Nat.toDigits 16 c.unit.toNat) ++ "\x7d"

end Char16

end Columnar
