import Columnar.Container.Binary
/-!
# Operators with one scalar operand

A binary operator with a scalar on either side, and shifts. No row changes between null and value.
As with two containers, wrapping and rounding operators run over every stored value; checked ones
leave what is stored beneath nulls alone and change nothing unless every result is there.
-/

namespace Columnar

namespace Chunk

variable {k : Kind}

/-- The results of a checked function for the rows of a chunk, unless one is missing. -/
def mapChecked? (f : k.Value → Option k.Value) (c : Chunk k) : Option (Array k.Value) := do
  let results ← c.slots.mapM fun (a, valid) => if valid then f a else some a
  return results.toArray

/-- Whether a row holds a zero. -/
def hasZero (c : Chunk k) : Bool := c.slots.any fun (a, valid) => Kind.Value.isZero a && valid

end Chunk

namespace Container

variable {k : Kind}

/-- Put a scalar on the right of an operator or, reversed, on its left. -/
def withScalar {β : Type} (f : k.Value → k.Value → β) (scalar : k.Value) (reverse : Bool) :
    k.Value → β :=
  if reverse then fun a => f scalar a else fun a => f a scalar

/-- Refuse a zero divisor: the scalar, if some row has a value to be divided, or reversed, the
value of a row. -/
def checkScalarDivisor (c : Container k) (scalar : k.Value) (reverse : Bool) :
    Except ColumnError Unit :=
  let found :=
    if reverse then c.chunks.any Chunk.hasZero
    else Kind.Value.isZero scalar && decide (c.nullCount < c.len)
  if found then .error (.divideByZero k) else .ok ()

/-- Apply a function to every stored value. -/
def mapInPlace (f : k.Value → k.Value) : Edit (Container k) Unit :=
  Edit.updates fun c =>
    { c with chunks := c.chunks.map fun chunk => chunk.withValues (chunk.values.values.map f) }

/-- Apply a checked function to every row. Nothing is changed unless every result is there. -/
def mapCheckedInPlace (f : k.Value → Option k.Value) (missing : ColumnError) :
    Edit (Container k) Unit := do
  let staged ← Edit.checks fun c =>
    match c.chunks.toList.mapM (Chunk.mapChecked? f) with
    | some staged => .ok staged
    | none => .error missing
  Edit.updates fun c =>
    { c with chunks := (c.chunks.toList.zipWith Chunk.withValues staged).toArray }

/-- Apply a binary operator to every row and a scalar. -/
def binaryScalar (op : BinaryOp) (scalar : k.Value) (reverse : Bool) :
    Edit (Container k) Unit :=
  match k.arithmetic, op with
  | .wrapping ops, .arithmetic op => do
    if op.isDivision then Edit.checks fun c => c.checkScalarDivisor scalar reverse
    mapInPlace (withScalar (ops.guarded op) scalar reverse)
  | .wrapping ops, .bitwise op => mapInPlace (withScalar (ops.bitwise op) scalar reverse)
  | .rounding ops, .arithmetic op => mapInPlace (withScalar (ops op) scalar reverse)
  | .checked ops, .arithmetic op => do
    if op.isDivision then Edit.checks fun c => c.checkScalarDivisor scalar reverse
    mapCheckedInPlace (withScalar (ops op) scalar reverse) (.overflow k (.arithmetic op))
  | .logical ops, .bitwise op => mapInPlace (withScalar (ops op) scalar reverse)
  | _, op => Edit.fail (.unsupportedOperation k (.binary op))

/-- Shift every stored value by an amount. Only integers and code units can be shifted. -/
def shift (op : ShiftOp) (amount : Int32) : Edit (Container k) Unit :=
  match k.arithmetic with
  | .wrapping ops => mapInPlace fun a => ops.shift op a (ops.places amount)
  | _ => Edit.fail (.unsupportedOperation k (.shift op))

end Container

end Columnar
