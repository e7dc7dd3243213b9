import Columnar.Container.Builder
/-!
# Selecting rows through an index map

An index map lists, for every row of the result, the row of the source it comes from. It may be
read back to front, and an entry may be null, which gives a null row. A map longer than the source
is refused before anything is reported.
-/

namespace Columnar.Container

variable {k : Kind}

/-- The positions at which a map of some length is read. -/
def readingOrder (mapLen : Nat) (invert : Bool) : List Nat :=
  if invert then (List.range mapLen).map (mapLen - 1 - ·) else List.range mapLen

/-- Rebuild a container through a map of which `entry` reads one position. -/
def selectBy (c : Container k) (mapLen : Nat) (invert : Bool)
    (entry : Nat → Except ColumnError (Option Nat)) : Traced (Container k) := do
  if c.len < mapLen then throw (.mapExceedsSource mapLen c.len)
  Traced.report (.rebuilding k mapLen)
  Builder.build c.options <| Edit.forEach (readingOrder mapLen invert) fun position => do
    match ← entry position with
    | some source => Builder.push (← c.get source)
    | none => Builder.push none

/-- The rows that a list of indices names. -/
def select (c : Container k) (map : Array Nat) (invert : Bool) : Traced (Container k) :=
  c.selectBy map.size invert fun position => .ok map[position]?

/-- The rows that a column of indices names. -/
def selectByColumn (c : Container k) (map : Container .uint64) (invert : Bool) :
    Traced (Container k) :=
  c.selectBy map.len invert fun position => do
    return (← map.get position).map fun (index : UInt64) => index.toNat

end Columnar.Container
