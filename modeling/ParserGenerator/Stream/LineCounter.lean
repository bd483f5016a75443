import ParserGenerator.Text.Units

/-!
# Lines and columns

The place of an offset of a stream as a line and a column. A line ends with a
line feed, a carriage return, a line separator or a paragraph separator; a
carriage return and the line feed after it end a line together. What lies
before an offset that is no longer asked about can be forgotten.
-/

namespace ParserGenerator
namespace Stream

/-- A place in a text; lines and columns are numbered from one, and columns
count code units. -/
structure Position where
  /-- The line. -/
  line : Nat
  /-- The column. -/
  column : Nat
  deriving DecidableEq

/-- A line and a column with a colon between them. -/
def Position.display (position : Position) : String :=
  s!"{position.line}:{position.column}"

/-- The line feed. -/
def lineFeed : CodeUnit := 0x0A

/-- The carriage return. -/
def carriageReturn : CodeUnit := 0x0D

/-- Whether a unit ends a line. -/
def isLineBreak (unit : CodeUnit) : Bool :=
  unit == lineFeed || unit == carriageReturn || unit == 0x2028 ||
    unit == 0x2029

/-- The offsets at which the lines of a stream start. -/
structure LineCounter where
  /-- The start of the last line. -/
  latest : Nat
  /-- The starts of the lines before it, the last one first. -/
  earlier : List Nat
  /-- The number of lines that were forgotten. -/
  dropped : Nat
  /-- The offset after a carriage return that was the last unit seen. -/
  afterReturn : Option Nat
  deriving DecidableEq

namespace LineCounter

/-- The counter of a stream of which nothing has been seen. -/
def start : LineCounter := ⟨0, [], 0, none⟩

/-- Record a unit at an offset. -/
def observeUnit (counter : LineCounter) (offset : Nat) (unit : CodeUnit) :
    LineCounter :=
  if unit = lineFeed ∧ counter.afterReturn = some offset then
    { counter with latest := offset + 1, afterReturn := none }
  else if isLineBreak unit then
    { counter with
      latest := offset + 1
      earlier := counter.latest :: counter.earlier
      afterReturn := if unit = carriageReturn then some (offset + 1) else none }
  else
    { counter with afterReturn := none }

/-- Record the units that start at an offset. -/
def observe (counter : LineCounter) (offset : Nat) :
    List CodeUnit → LineCounter
  | [] => counter
  | unit :: rest =>
      (counter.observeUnit offset unit).observe (offset + 1) rest

/-- The starts that are remembered, the last one first. -/
def starts (counter : LineCounter) : List Nat :=
  counter.latest :: counter.earlier

/-- The number of starts that are remembered. -/
def retained (counter : LineCounter) : Nat := counter.starts.length

/-- The number of ascending starts up to an offset, found by bisection. -/
def countUpTo (offset : Nat) : List Nat → Nat
  | [] => 0
  | [start] => if start ≤ offset then 1 else 0
  | first :: second :: rest =>
      let starts := first :: second :: rest
      let half := starts.length / 2
      if starts[half]?.any (· ≤ offset) then
        half + countUpTo offset (starts.drop half)
      else
        countUpTo offset (starts.take (starts.length - half))
termination_by starts => starts.length
decreasing_by
  all_goals simp only [List.length_drop, List.length_take, List.length_cons]
  all_goals omega

/-- Forget the lines that end before an offset. -/
def discardBefore (counter : LineCounter) (offset : Nat) : LineCounter :=
  let forgotten := countUpTo offset counter.starts.reverse - 1
  { counter with
    earlier := counter.earlier.take (counter.earlier.length - forgotten)
    dropped := counter.dropped + forgotten }

/-- The place of an offset, unless its line was forgotten. -/
def location (counter : LineCounter) (offset : Nat) : Option Position :=
  let starts := counter.starts.reverse
  match countUpTo offset starts with
  | 0 => none
  | index + 1 =>
      (starts[index]?).map fun start =>
        ⟨counter.dropped + index + 1, offset - start + 1⟩

end LineCounter
end Stream
end ParserGenerator
