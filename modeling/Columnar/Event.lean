import Columnar.Kind
/-!
# Events

Operations report the moments at which storage grows, a column moves on to its next chunk, a
column is rebuilt through an index map, or a distinct counter gives up exactness. The report is a
value like any other, so that what is reported can be reasoned about.
-/

namespace Columnar

/-- How detailed a report an event belongs to. -/
inductive Level where
  | debug
  | trace
deriving DecidableEq, Repr, Inhabited

/-- Something worth reporting that happened during an operation. -/
inductive Event where
  /-- A chunk buffer grew its allocation. -/
  | bufferGrew (kind : Kind) (current target : Nat)
  /-- A column began chunk `chunk` when it had `row` rows. -/
  | rolledOver (kind : Kind) (chunk row : Nat)
  /-- A column is being rebuilt through an index map. -/
  | rebuilding (kind : Kind) (mapLen : Nat)
  /-- A distinct counter replaced its set of `seen` hashes by a sketch. -/
  | counterSpilled (precision seen : Nat)
deriving DecidableEq, Repr, Inhabited

namespace Event

/-- Growth and spilling belong to the finer report. -/
def level : Event → Level
  | .bufferGrew .. | .counterSpilled .. => .trace
  | .rolledOver .. | .rebuilding .. => .debug

/-- The wording of an event, without its level. -/
def message : Event → String
  | .bufferGrew kind current target =>
    s!"growing {kind.name} chunk buffer from {current} to {target} elements"
  | .rolledOver kind chunk row => s!"{kind.name} column rolled over to chunk {chunk} at row {row}"
  | .rebuilding kind mapLen => s!"rebuilding {kind.name} column from a {mapLen}-entry index map"
  | .counterSpilled precision seen =>
    s!"distinct counter spilled into a 2^{precision} sketch after {seen} values"

/-- The line written for an event: its level, a colon and its wording. -/
def line (e : Event) : String :=
  let level := match e.level with
    | .debug => "debug"
    | .trace => "trace"
  s!"{level}: {e.message}"

end Event

end Columnar
