import Columnar.Kind
/-!
# Operators

The operators of the library fall into three families: binary operators (arithmetic and bitwise),
shifts by a fixed amount, and comparisons. Which family is legal depends on the element kind only;
`Kind.support` is that table and `Support.allows` reads it.
-/

namespace Columnar

/-- The arithmetic operators. -/
inductive ArithmeticOp where
  | add
  | subtract
  | multiply
  | divide
  | modulo
deriving DecidableEq, Repr, Inhabited

/-- The bitwise operators, which on booleans are the logical connectives. -/
inductive BitwiseOp where
  | and
  | or
  | xor
deriving DecidableEq, Repr, Inhabited

/-- An operator that combines two elements of a kind into a third. -/
inductive BinaryOp where
  | arithmetic (op : ArithmeticOp)
  | bitwise (op : BitwiseOp)
deriving DecidableEq, Repr, Inhabited

/-- A shift of the bits of an element. -/
inductive ShiftOp where
  | left
  | right
deriving DecidableEq, Repr, Inhabited

/-- The comparisons of two elements. -/
inductive Comparison where
  | equal
  | notEqual
  | greaterOrEqual
  | lessOrEqual
  | greater
  | less
deriving DecidableEq, Repr, Inhabited

/-- An operator of one of the three families. -/
inductive Operator where
  | binary (op : BinaryOp)
  | shift (op : ShiftOp)
  | comparison (op : Comparison)
deriving DecidableEq, Repr, Inhabited

/-- Division and remainder are the operators that a zero on the right makes meaningless. -/
def ArithmeticOp.isDivision : ArithmeticOp → Bool
  | .divide | .modulo => true
  | .add | .subtract | .multiply => false

namespace BinaryOp

/-- Every binary operator, arithmetic before bitwise. -/
def all : List BinaryOp :=
  [.arithmetic .add, .arithmetic .subtract, .arithmetic .multiply, .arithmetic .divide,
   .arithmetic .modulo, .bitwise .and, .bitwise .or, .bitwise .xor]

/-- The name of a binary operator in messages. -/
def name : BinaryOp → String
  | .arithmetic .add => "add"
  | .arithmetic .subtract => "subtract"
  | .arithmetic .multiply => "multiply"
  | .arithmetic .divide => "divide"
  | .arithmetic .modulo => "modulo"
  | .bitwise .and => "and"
  | .bitwise .or => "or"
  | .bitwise .xor => "xor"

/-- Whether the operator works bit by bit. -/
def isBitwise : BinaryOp → Bool
  | .arithmetic _ => false
  | .bitwise _ => true

end BinaryOp

namespace ShiftOp

/-- Both shifts. -/
def all : List ShiftOp := [.left, .right]

/-- The name of a shift in messages. -/
def name : ShiftOp → String
  | .left => "left shift"
  | .right => "right shift"

end ShiftOp

namespace Comparison

/-- All six comparisons, the two that need no order first. -/
def all : List Comparison :=
  [.equal, .notEqual, .greaterOrEqual, .lessOrEqual, .greater, .less]

/-- The name of a comparison in messages. -/
def name : Comparison → String
  | .equal => "equal"
  | .notEqual => "not equal"
  | .greaterOrEqual => "greater or equal"
  | .lessOrEqual => "less or equal"
  | .greater => "greater"
  | .less => "less"

/-- Whether the comparison needs an order and not just equality. -/
def isOrdering : Comparison → Bool
  | .equal | .notEqual => false
  | .greaterOrEqual | .lessOrEqual | .greater | .less => true

/-- The verdict on two elements that stand in relation `r`, where `none` says that they are
unordered. Unordered elements are unequal, and no other comparison holds of them. -/
def holds (op : Comparison) (r : Option Ordering) : Bool :=
  match op, r with
  | .equal, some .eq => true
  | .notEqual, some .eq => false
  | .notEqual, _ => true
  | .greaterOrEqual, some .gt | .greaterOrEqual, some .eq => true
  | .lessOrEqual, some .lt | .lessOrEqual, some .eq => true
  | .greater, some .gt => true
  | .less, some .lt => true
  | _, _ => false

end Comparison

namespace Operator

/-- All sixteen operators, binary ones first, then shifts, then comparisons. -/
def all : List Operator :=
  BinaryOp.all.map .binary ++ ShiftOp.all.map .shift ++ Comparison.all.map .comparison

/-- The name of an operator in messages. -/
def name : Operator → String
  | .binary op => op.name
  | .shift op => op.name
  | .comparison op => op.name

end Operator

/-- Which operator families are legal for an element kind. -/
structure Support where
  /-- Addition, subtraction, multiplication, division and remainder. -/
  arithmetic : Bool
  /-- Conjunction, disjunction and exclusive disjunction, bit by bit. -/
  bitwise : Bool
  /-- Shifts in both directions. -/
  shift : Bool
  /-- The four order comparisons; equality is always legal. -/
  ordering : Bool
deriving DecidableEq, Repr, Inhabited

namespace Support

/-- Booleans have the logical connectives only. -/
def logical : Support := ⟨false, true, false, false⟩

/-- Integers and code units have every operator. -/
def integral : Support := ⟨true, true, true, true⟩

/-- Floating-point numbers and decimals have arithmetic and an order, but no bits to work on. -/
def fractional : Support := ⟨true, false, false, true⟩

/-- Whether an operator belongs to one of the families. -/
def allows (s : Support) : Operator → Bool
  | .binary (.arithmetic _) => s.arithmetic
  | .binary (.bitwise _) => s.bitwise
  | .shift _ => s.shift
  | .comparison op => !op.isOrdering || s.ordering

end Support

/-- The operator families legal for each kind. -/
def Kind.support : Kind → Support
  | .bool => .logical
  | .float32 | .float64 | .decimal => .fractional
  | .int8 | .uint8 | .int16 | .uint16 | .int32 | .uint32 | .int64 | .uint64 | .char16 => .integral

end Columnar
