import Columnar.Distinct.Sketch
import Columnar.Distinct.SplitMix
import Columnar.Edit
import Std.Data.HashSet
/-!
# Counting distinct values

A counter keeps the mixed bits of the values it has seen in a set, and so counts them exactly, until
the set would outgrow a limit; it then spills the set into a sketch. Both the limit and the
precision of the sketch follow from the number of rows that are going to be counted.
-/

namespace Columnar.Distinct

/-- A counter of distinct values. -/
inductive Counter where
  /-- All hashes seen so far, and the precision of the sketch that would replace them. -/
  | exact (seen : Std.HashSet UInt64) (precision : Nat)
  /-- A sketch of the hashes seen so far. -/
  | sketch (s : Sketch)

namespace Counter

/-- The precision of the smallest sketch. -/
def minPrecision : Nat := 10

/-- The precision of the largest sketch. -/
def maxPrecision : Nat := 14

/-- The precision for a number of rows: one more for every fourfold growth beyond `2 ^ 16`. -/
def precisionFor (rows : Nat) : Nat :=
  let bits := if rows = 0 then 0 else rows.log2 + 1
  min (max (bits / 2 + 2) minPrecision) maxPrecision

/-- The largest number of hashes that are counted exactly: twice the registers of the sketch. -/
def exactLimit (precision : Nat) : Nat := 2 <<< precision

/-- The counter for a number of rows. -/
def forRows (rows : Nat) : Counter := .exact {} (precisionFor rows)

/-- The sketch of a set of hashes. -/
def spill (seen : Std.HashSet UInt64) (precision : Nat) : Sketch :=
  seen.fold Sketch.insert (Sketch.empty precision)

/-- Count the value with the given bits. -/
def insert (bits : UInt64) : Edit Counter Unit := fun counter =>
  let hash := mix bits
  match counter with
  | .exact seen precision =>
    if exactLimit precision ≤ seen.size && !seen.contains hash then
      ⟨.ok (), .sketch ((spill seen precision).insert hash),
        #[.counterSpilled precision seen.size]⟩
    else ⟨.ok (), .exact (seen.insert hash) precision, #[]⟩
  | .sketch s => ⟨.ok (), .sketch (s.insert hash), #[]⟩

/-- The number of distinct values: exact before the spill, estimated after it. -/
def estimate : Counter → Nat
  | .exact seen _ => seen.size
  | .sketch s => s.estimate

end Counter

end Columnar.Distinct
