import ParserGenerator.Text.Hex

/-!
# Code point ranges

Inclusive ranges of code points, with the landmarks of the code space: the
surrogate gap and the first supplementary code point.
-/

namespace ParserGenerator

/-- The highest code point. -/
def maxCodePoint : Nat := 0x10FFFF

/-- The first surrogate, which is the first high surrogate. -/
def surrogateFirst : Nat := 0xD800

/-- The first low surrogate. -/
def lowSurrogateFirst : Nat := 0xDC00

/-- The last surrogate, which is the last low surrogate. -/
def surrogateLast : Nat := 0xDFFF

/-- The first code point that takes two units in UTF-16. -/
def supplementaryFirst : Nat := 0x10000

/-- Whether a number lies in the surrogate gap. -/
def isSurrogate (point : Nat) : Bool :=
  surrogateFirst ≤ point && point ≤ surrogateLast

/-- An inclusive range of code points or code units. -/
structure CodeRange where
  /-- The least member. -/
  first : Nat
  /-- The greatest member. -/
  last : Nat
  deriving DecidableEq

namespace CodeRange

/-- The range with one member. -/
def single (point : Nat) : CodeRange := ⟨point, point⟩

/-- Membership in a range. -/
def contains (range : CodeRange) (point : Nat) : Bool :=
  range.first ≤ point && point ≤ range.last

/-- The number of members of a range, as a word of 32 bits: the range of all
words counts as zero. -/
def count (range : CodeRange) : Nat :=
  (range.last - range.first + 1) % 0x100000000

/-- Ranges are ordered by their first members and then by their last ones. -/
def le (left right : CodeRange) : Bool :=
  left.first < right.first ||
    (left.first == right.first && left.last ≤ right.last)

/-- A range as `U+0041-U+005A`, a single code point as `U+0041`. -/
def display (range : CodeRange) : String :=
  if range.first = range.last then
    "U+" ++ Text.upperHex 4 range.first
  else
    "U+" ++ Text.upperHex 4 range.first ++ "-U+" ++ Text.upperHex 4 range.last

end CodeRange
end ParserGenerator
