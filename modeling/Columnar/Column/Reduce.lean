import Columnar.Column.Transform
/-!
# Reductions of columns

Sums, products, extremes and means over the rows that hold a value, and the running forms of the
first four. A reduction of a column without such rows has no value. Extremes are taken by the keys
of the values, and the first of several equal ones is given.
-/

namespace Columnar.Column

variable {k : Kind}

/-- What a running aggregate keeps. -/
inductive Aggregate where
  | sum
  | product
  | min
  | max
deriving DecidableEq, Repr, Inhabited

namespace Aggregate

/-- The operator that has to be legal for a kind to have the aggregate. -/
def operator : Aggregate → Operator
  | .sum => .binary (.arithmetic .add)
  | .product => .binary (.arithmetic .multiply)
  | .min | .max => .comparison .less

/-- The aggregate of an earlier result and one more value. -/
def step (a : Aggregate) (acc v : k.Value) : Except ColumnError k.Value :=
  match a with
  | .sum => BinaryOp.onValues (.arithmetic .add) acc v
  | .product => BinaryOp.onValues (.arithmetic .multiply) acc v
  | .min => .ok (if Kind.Value.order v acc == .lt then v else acc)
  | .max => .ok (if Kind.Value.order v acc == .gt then v else acc)

end Aggregate

/-- Combine a list of values from the first on. -/
def fold (a : Aggregate) : List k.Value → Except ColumnError (Option k.Value)
  | [] => .ok none
  | v :: vs => return some (← vs.foldlM a.step v)

/-- The aggregate of all rows that hold a value. -/
def reduce (c : Column k) (a : Aggregate) : Except ColumnError (Option k.Value) := do
  check k a.operator
  fold a c.values

/-- The sum of the values; none without values. -/
def sum (c : Column k) : Except ColumnError (Option k.Value) := c.reduce .sum

/-- The product of the values; none without values. -/
def product (c : Column k) : Except ColumnError (Option k.Value) := c.reduce .product

/-- The first of the least values; none without values. -/
def min (c : Column k) : Except ColumnError (Option k.Value) := c.reduce .min

/-- The first of the greatest values; none without values. -/
def max (c : Column k) : Except ColumnError (Option k.Value) := c.reduce .max

/-- The mean of a list of values, in floating-point arithmetic from the first on. -/
def meanOf (values : List k.Value) : Option Float :=
  if values.isEmpty then none
  else
    let sum := values.foldl (fun sum v => sum + Kind.Value.toFloat v) 0.0
    some (sum / values.length.toUInt64.toFloat)

/-- The mean of the values; none without values. -/
def mean (c : Column k) : Except ColumnError (Option Float) := do
  check k (.binary (.arithmetic .add))
  return meanOf c.values

/-- One step of a running aggregate: the aggregate so far and, in reverse, the rows so far. -/
def runningStep (a : Aggregate) (s : Cell k × List (Cell k)) (cell : Cell k) :
    Except ColumnError (Cell k × List (Cell k)) :=
  match s, cell with
  | (acc, done), none => .ok (acc, none :: done)
  | (none, done), some v => .ok (some v, some v :: done)
  | (some acc, done), some v => do
    let next ← a.step acc v
    return (some next, some next :: done)

/-- The running aggregates of a list of rows; nulls stay null. -/
def running (a : Aggregate) (rows : List (Cell k)) : Except ColumnError (List (Cell k)) := do
  let (_, done) ← rows.foldlM (runningStep a) (none, [])
  return done.reverse

/-- The column of the running aggregates. -/
def cumulative (c : Column k) (a : Aggregate) : Traced (Column k) := do
  check k a.operator
  c.rebuild (← running a c.rows)

/-- Whether every row that holds a value is true. -/
def all (c : Column .bool) : Bool := c.values.all id

/-- Whether some row is true. -/
def any (c : Column .bool) : Bool := c.values.any id

end Columnar.Column
