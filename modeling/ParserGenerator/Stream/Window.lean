import ParserGenerator.Stream.Source

/-!
# Windows

The part of a stream that is held at a time: the units that arrived and are
not consumed yet. When a window is full, the consumed units at its front give
way, and it doubles if the pending units fill more than half of it.
-/

namespace ParserGenerator
namespace Stream

/-- A growable window over a stream. -/
structure Window where
  /-- The number of units there is room for. -/
  capacity : Nat
  /-- The number of consumed units that still take up room. -/
  consumed : Nat
  /-- The units that are not consumed. -/
  pending : List CodeUnit
  /-- The offset of the front of the window in the stream. -/
  base : Nat
  /-- Whether the stream has ended. -/
  atEnd : Bool
  /-- How often pending units were moved to the front. -/
  shifts : Nat
  deriving DecidableEq

namespace Window

/-- An empty window; it has room for at least one unit. -/
def ofCapacity (capacity : Nat) : Window :=
  ⟨max capacity 1, 0, [], 0, false, 0⟩

/-- A window that holds all of a stream. -/
def ofUnits (units : List CodeUnit) : Window :=
  ⟨max units.length 1, 0, units, 0, true, 0⟩

/-- The offset of the first pending unit in the stream. -/
def position (window : Window) : Nat := window.base + window.consumed

/-- The number of units that take up room. -/
def occupied (window : Window) : Nat :=
  window.consumed + window.pending.length

/-- The number of units that fit in. -/
def room (window : Window) : Nat := window.capacity - window.occupied

/-- Consume pending units. -/
def consume (window : Window) (count : Nat) : Window :=
  { window with
    consumed := window.consumed + count
    pending := window.pending.drop count }

/-- Give up the consumed units at the front. -/
def shift (window : Window) : Window :=
  if window.consumed = 0 then
    window
  else
    { window with
      consumed := 0
      base := window.position
      shifts := window.shifts + 1 }

/-- Double the window if the units in it fill more than half of it. -/
def grow (window : Window) : Window :=
  if window.capacity < window.occupied * 2 then
    { window with capacity := window.capacity * 2 }
  else
    window

/-- Make room for more units. -/
def prepare (window : Window) : Window :=
  if window.occupied = window.capacity then window.shift.grow else window

/-- Accept units that fit in; none at all ends the stream. -/
def accept (window : Window) (units : List CodeUnit) : Window :=
  if units.isEmpty then
    { window with atEnd := true }
  else
    { window with pending := window.pending ++ units }

/-- Refill a window that has been prepared from a source. -/
def fill {Supply : Type} [Source Supply] (window : Window) (supply : Supply) :
    Except SourceError Nat × Window × Supply :=
  let window := window.prepare
  match Source.read window.room supply with
  | (.ok units, rest) => (.ok units.length, window.accept units, rest)
  | (.error error, rest) => (.error error, window, rest)

end Window
end Stream
end ParserGenerator
