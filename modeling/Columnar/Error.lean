import Columnar.Operator
/-!
# Errors

Every way in which an operation on columns can be refused, and the one place that words them.
Indices, lengths and sizes are carried as numbers, so that a caller can act on the cause without
reading the message.
-/

namespace Columnar

/-- The type that was met where an element of some kind was expected. -/
inductive FoundType where
  /-- A null where a value is needed. -/
  | null
  /-- A value, column or array of another kind. -/
  | kind (k : Kind)
  /-- An array of a type to which no kind corresponds. -/
  | unsupportedArray
deriving DecidableEq, Repr, Inhabited

/-- The name of a type in messages. -/
def FoundType.name : FoundType → String
  | .null => "null"
  | .kind k => k.name
  | .unsupportedArray => "unsupported arrow type"

/-- Why an operation on columns was refused. -/
inductive ColumnError where
  /-- A chunk was asked to hold more elements than its ceiling. -/
  | capacityExceeded (requested ceiling : Nat)
  /-- A row number at or past the end. -/
  | indexOutOfRange (index len : Nat)
  /-- An operator that is not legal for the kind. -/
  | unsupportedOperation (kind : Kind) (op : Operator)
  /-- An operand of another type than the column's. -/
  | typeMismatch (expected : Kind) (actual : FoundType)
  /-- A contiguous range was asked for that crosses a chunk boundary. -/
  | rangeSpansMultipleChunks (start stop chunkCapacity : Nat)
  /-- An index map longer than the column it selects from. -/
  | mapExceedsSource (mapLen sourceLen : Nat)
  /-- Two operands of different length. -/
  | lengthMismatch (left right : Nat)
  /-- Two operands of one length that are cut into chunks differently. -/
  | layoutMismatch (chunk left right : Nat)
  /-- A zero divisor in a row that has both operands. -/
  | divideByZero (kind : Kind)
  /-- A result outside the range of the kind. -/
  | overflow (kind : Kind) (op : BinaryOp)
  /-- Raw bytes too few for the number of rows announced. -/
  | bufferTooShort (expected actual : Nat)
deriving DecidableEq, Repr, Inhabited

/-- The wording of an error. -/
def ColumnError.message : ColumnError → String
  | .capacityExceeded requested ceiling =>
    s!"chunk capacity exceeded: {requested} elements requested, ceiling is {ceiling}"
  | .indexOutOfRange index len => s!"index {index} out of range for length {len}"
  | .unsupportedOperation kind op => s!"{op.name} is not supported for {kind.name} columns"
  | .typeMismatch expected actual =>
    s!"type mismatch: expected {expected.name}, got {actual.name}"
  | .rangeSpansMultipleChunks start stop chunkCapacity =>
    s!"rows {start}..{stop} span more than one chunk (chunk capacity {chunkCapacity})"
  | .mapExceedsSource mapLen sourceLen =>
    s!"index map has {mapLen} entries but the source column only has {sourceLen} rows"
  | .lengthMismatch left right =>
    s!"length mismatch: left operand has {left} rows, right operand has {right}"
  | .layoutMismatch chunk left right =>
    s!"chunk layouts differ at chunk {chunk}: left has {left} rows there, right has {right}"
  | .divideByZero kind => s!"division by zero in a {kind.name} column"
  | .overflow kind op => s!"{op.name} overflowed in a {kind.name} column"
  | .bufferTooShort expected actual =>
    s!"buffer too short: expected at least {expected} bytes, got {actual}"

/-- Refuse an operator that is not among those supported. -/
def Support.check (s : Support) (kind : Kind) (op : Operator) : Except ColumnError Unit :=
  if s.allows op then .ok () else .error (.unsupportedOperation kind op)

end Columnar
