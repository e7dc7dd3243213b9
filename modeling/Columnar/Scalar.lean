import Columnar.Value
/-!
# Scalars

A scalar is a cell whose kind is known at run time only.
-/

namespace Columnar

/-- A null, or a value together with its kind. -/
inductive Scalar where
  | null
  | value (k : Kind) (v : k.Value)

namespace Scalar

/-- The scalar of a row. -/
def ofCell {k : Kind} : Cell k → Scalar
  | none => .null
  | some v => .value k v

/-- What a scalar is, where an element of some kind was expected. -/
def foundType : Scalar → FoundType
  | .null => .null
  | .value k _ => .kind k

/-- The name of the type of a scalar in messages. -/
def typeName (s : Scalar) : String := s.foundType.name

/-- The value of a scalar, if it is one of the given kind. -/
def as? (k : Kind) : Scalar → Option k.Value
  | .null => none
  | .value l v => if h : l = k then some (h ▸ v) else none

/-- The value of a scalar that has to be of the given kind. -/
def expect (k : Kind) (s : Scalar) : Except ColumnError k.Value :=
  match s.as? k with
  | some v => .ok v
  | none => .error (.typeMismatch k s.foundType)

/-- The cell of a scalar that has to be null or of the given kind. -/
def expectCell (k : Kind) : Scalar → Except ColumnError (Cell k)
  | .null => .ok none
  | s => return some (← s.expect k)

/-- The text of a scalar. -/
def text : Scalar → String
  | .null => "null"
  | .value _ v => Kind.Value.text v

@[simp] theorem as?_value {k : Kind} (v : k.Value) : (Scalar.value k v).as? k = some v := by
  simp [as?]

end Scalar

end Columnar
