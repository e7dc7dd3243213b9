import Columnar.Container.Layout
import Columnar.Edit
/-!
# Binary operators on containers

The left operand is changed in place, chunk by chunk. A row of the result is null if either operand
is null there. Wrapping and rounding operators run over every stored value, also beneath nulls,
where a zero divisor leaves the left value as it is; a zero divisor in a row that has both operands
is found before anything is changed. Checked operators look at the rows with both operands only;
their results are set aside until all of them are known, and zero is stored in the other rows.
-/

namespace Columnar

namespace WrappingOps

variable {k : Kind}

/-- An arithmetic operator that leaves the left value as it is when the divisor is zero. -/
def guarded (ops : WrappingOps k.Value) (op : ArithmeticOp) (a b : k.Value) : k.Value :=
  if op.isDivision && Kind.Value.isZero b then a else ops.arithmetic op a b

end WrappingOps

namespace Chunk

variable {k : Kind}

/-- Combine the stored values of two chunks and clear the rows that are null in either. -/
def zipWith (f : k.Value → k.Value → k.Value) (left right : Chunk k) : Chunk k where
  values := { left.values with values := left.values.values.zipWith f right.values.values }
  validity := left.validity.and right.validity

/-- The results of a checked operator for the rows of two chunks, unless one is missing. -/
def zipChecked? (f : k.Value → k.Value → Option k.Value) (left right : Chunk k) :
    Option (Array k.Value) := do
  let results ← (left.slots.zip right.slots).mapM fun ((a, validA), (b, validB)) =>
    if validA && validB then f a b else some k.zero
  return results.toArray

/-- Whether a row that holds a value in both chunks has a zero on the right. -/
def hasZeroDivisor (left right : Chunk k) : Bool :=
  (left.slots.zip right.slots).any fun ((_, validA), (b, validB)) =>
    Kind.Value.isZero b && validA && validB

end Chunk

namespace Container

variable {k : Kind}

/-- Refuse a zero divisor in a row that has both operands. -/
def checkDivisors (left right : Container k) : Except ColumnError Unit :=
  if (chunkPairs left right).any fun (l, r) => l.hasZeroDivisor r then .error (.divideByZero k)
  else .ok ()

/-- Combine two containers value by value. -/
def zipInPlace (f : k.Value → k.Value → k.Value) (right : Container k) :
    Edit (Container k) Unit :=
  Edit.updates fun left =>
    recountNulls { left with chunks := left.chunks.zipWith (Chunk.zipWith f) right.chunks }

/-- Combine two containers by a checked operator. Nothing is changed unless every result is
there. -/
def zipCheckedInPlace (f : k.Value → k.Value → Option k.Value) (right : Container k)
    (missing : ColumnError) : Edit (Container k) Unit := do
  let staged ← Edit.checks fun left =>
    match (chunkPairs left right).mapM fun (l, r) => l.zipChecked? f r with
    | some staged => .ok staged
    | none => .error missing
  Edit.updates fun left =>
    let chunks := (chunkPairs left right).zipWith (fun (l, r) values =>
      { l.withValues values with validity := l.validity.and r.validity }) staged
    recountNulls { left with chunks := chunks.toArray }

/-- Apply a binary operator to the rows of two containers. -/
def binary (op : BinaryOp) (right : Container k) : Edit (Container k) Unit :=
  match k.arithmetic, op with
  | .wrapping ops, .arithmetic op => do
    Edit.checks fun left => checkLayout left right
    if op.isDivision then Edit.checks fun left => checkDivisors left right
    zipInPlace (ops.guarded op) right
  | .wrapping ops, .bitwise op => do
    Edit.checks fun left => checkLayout left right
    zipInPlace (ops.bitwise op) right
  | .rounding ops, .arithmetic op => do
    Edit.checks fun left => checkLayout left right
    zipInPlace (ops op) right
  | .checked ops, .arithmetic op => do
    Edit.checks fun left => checkLayout left right
    if op.isDivision then Edit.checks fun left => checkDivisors left right
    zipCheckedInPlace (ops op) right (.overflow k (.arithmetic op))
  | .logical ops, .bitwise op => do
    Edit.checks fun left => checkLayout left right
    zipInPlace (ops op) right
  | _, op => Edit.fail (.unsupportedOperation k (.binary op))

end Container

end Columnar
