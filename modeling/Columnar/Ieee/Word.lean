import Columnar.Ieee.Format
/-!
# Floating-point numbers as they are stored

A floating-point value is the word of a format, so that every pattern of bits is a value of its own.
In particular a word that is not a number keeps its sign and its fraction wherever it is stored,
copied, imported or exported; they are lost only where a number is computed. Lean's own
floating-point types know a single such word: a result that is not a number is stored as that one.
-/

namespace Columnar.Ieee

/-- A word of a format. -/
structure Format.Word (f : Format) where
  /-- The sign, the exponent and the fraction, from the highest bit down. -/
  bits : BitVec f.width
deriving DecidableEq, Repr

namespace Format.Word

variable {f : Format}

/-- The bits as a number. -/
def toNat (a : f.Word) : Nat := a.bits.toNat

/-- The word with the bits of a number. -/
def ofNat (f : Format) (n : Nat) : f.Word := ⟨.ofNat f.width n⟩

/-- Whether the word is not a number. -/
def isNaN (a : f.Word) : Bool := f.isNaN a.toNat

theorem eq_of_toNat_eq {a b : f.Word} (h : a.toNat = b.toNat) : a = b :=
  congrArg Word.mk (BitVec.eq_of_toNat_eq h)

/-- Every word is determined by its number. -/
theorem ofNat_toNat (a : f.Word) : ofNat f a.toNat = a :=
  eq_of_toNat_eq (Nat.mod_eq_of_lt a.bits.isLt)

end Format.Word

/-- The number of a 32-bit word. -/
def float32OfWord (a : binary32.Word) : Float32 := .ofBits (.ofBitVec a.bits)

/-- The 32-bit word of a number. -/
def wordOfFloat32 (x : Float32) : binary32.Word := ⟨x.toBits.toBitVec⟩

/-- The number of a 64-bit word. -/
def floatOfWord (a : binary64.Word) : Float := .ofBits (.ofBitVec a.bits)

/-- The 64-bit word of a number. -/
def wordOfFloat (x : Float) : binary64.Word := ⟨x.toBits.toBitVec⟩

/-- A number may be given where its word is asked for. -/
instance : Coe Float32 binary32.Word := ⟨wordOfFloat32⟩

/-- A word may be given where its number is asked for. -/
instance : CoeOut binary32.Word Float32 := ⟨float32OfWord⟩

/-- A number may be given where its word is asked for. -/
instance : Coe Float binary64.Word := ⟨wordOfFloat⟩

/-- A word may be given where its number is asked for. -/
instance : CoeOut binary64.Word Float := ⟨floatOfWord⟩

end Columnar.Ieee
