import Columnar.Operator
/-!
# Families of element arithmetic

How an operator acts on two elements is one of four stories. Integers wrap around and refuse to
divide by zero; floating-point numbers round and refuse nothing; decimals are checked, so that a
result may be missing; booleans know the logical connectives only. An element type says which
story is its own and supplies the operations.
-/

namespace Columnar

/-- The operations of a type of fixed-width integers. -/
structure WrappingOps (α : Type) where
  /-- The width of the integers. -/
  bits : Nat
  /-- Arithmetic modulo `2 ^ bits`. Division and remainder truncate; they are not meant to be used
  with a zero divisor. -/
  arithmetic : ArithmeticOp → α → α → α
  /-- The bitwise operators, bit by bit. -/
  bitwise : BitwiseOp → α → α → α
  /-- Shifts by an amount below `bits`. -/
  shift : ShiftOp → α → Nat → α

/-- The arithmetic of an element type. -/
inductive Arithmetic (α : Type) where
  /-- Fixed-width integers. -/
  | wrapping (ops : WrappingOps α)
  /-- Floating-point numbers. -/
  | rounding (ops : ArithmeticOp → α → α → α)
  /-- Numbers whose results may be out of range. -/
  | checked (ops : ArithmeticOp → α → α → Option α)
  /-- Truth values. -/
  | logical (ops : BitwiseOp → α → α → α)

/-- The operator families that a story of arithmetic provides. -/
def Arithmetic.support {α : Type} : Arithmetic α → Support
  | .wrapping _ => .integral
  | .rounding _ | .checked _ => .fractional
  | .logical _ => .logical

/-- The operations of a type that has the arithmetic and bitwise operators of Lean's own
fixed-width integers. -/
def WrappingOps.ofInstances {α : Type} [Add α] [Sub α] [Mul α] [Div α] [Mod α] [AndOp α] [OrOp α]
    [XorOp α] (bits : Nat) (shift : ShiftOp → α → Nat → α) : WrappingOps α where
  bits := bits
  arithmetic
    | .add => (· + ·)
    | .subtract => (· - ·)
    | .multiply => (· * ·)
    | .divide => (· / ·)
    | .modulo => (· % ·)
  bitwise
    | .and => (· &&& ·)
    | .or => (· ||| ·)
    | .xor => (· ^^^ ·)
  shift := shift

/-- The number of places by which bits move when a shift by `amount` is asked for: the amount is
read as an unsigned 32-bit number and reduced modulo the number of bits. -/
def WrappingOps.places {α : Type} (ops : WrappingOps α) (amount : Int32) : Nat :=
  amount.toUInt32.toNat % ops.bits

end Columnar
