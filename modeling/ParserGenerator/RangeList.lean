import ParserGenerator.CodeRange

/-!
# Range lists

Sets of code points as ascending lists of ranges that neither overlap nor
touch. `RangeList.ofRanges` brings any ranges into this form and every other
operation keeps it, so two lists denote the same set only if they are equal.
-/

namespace ParserGenerator

/-- A set of code points as a list of ranges. -/
structure RangeList where
  /-- The ranges, ascending and apart from each other. -/
  ranges : List CodeRange
  deriving DecidableEq

namespace RangeList

/-- The empty set. -/
def empty : RangeList := ⟨[]⟩

instance : Inhabited RangeList := ⟨empty⟩

/-- Every code point outside the surrogate gap. -/
def all : RangeList :=
  ⟨[⟨0, surrogateFirst - 1⟩, ⟨surrogateLast + 1, maxCodePoint⟩]⟩

/-- The surrogate gap. -/
def surrogates : RangeList := ⟨[⟨surrogateFirst, surrogateLast⟩]⟩

/-- The set with one member. -/
def single (point : Nat) : RangeList := ⟨[CodeRange.single point]⟩

/-- Extend `current` by every following range that overlaps or touches it. -/
def absorb (current : CodeRange) : List CodeRange → List CodeRange
  | [] => [current]
  | next :: rest =>
      if next.first ≤ current.last + 1 then
        absorb ⟨current.first, max current.last next.last⟩ rest
      else
        current :: absorb next rest

/-- Merge the overlapping and touching ranges of an ascending list. -/
def coalesce : List CodeRange → List CodeRange
  | [] => []
  | range :: rest => absorb range rest

/-- The set covered by arbitrary ranges. -/
def ofRanges (ranges : List CodeRange) : RangeList :=
  ⟨coalesce (ranges.mergeSort CodeRange.le)⟩

/-- Whether the set has no member. -/
def isEmpty (set : RangeList) : Bool := set.ranges.isEmpty

/-- Membership of a code point. -/
def contains (set : RangeList) (point : Nat) : Bool :=
  set.ranges.any (·.contains point)

/-- The number of members. -/
def count (set : RangeList) : Nat :=
  set.ranges.foldr (fun range total => range.count + total) 0

/-- Members of either set. -/
def union (left right : RangeList) : RangeList :=
  ⟨coalesce (left.ranges.merge right.ranges CodeRange.le)⟩

/-- Common parts of two ascending lists, dropping the range that ends first. -/
def commonRanges : List CodeRange → List CodeRange → List CodeRange
  | [], _ => []
  | _, [] => []
  | left :: lefts, right :: rights =>
      let rest :=
        if left.last < right.last then
          commonRanges lefts (right :: rights)
        else
          commonRanges (left :: lefts) rights
      let first := max left.first right.first
      let last := min left.last right.last
      if first ≤ last then ⟨first, last⟩ :: rest else rest
  termination_by lefts rights => lefts.length + rights.length

/-- Members of both sets. -/
def intersect (left right : RangeList) : RangeList :=
  ⟨commonRanges left.ranges right.ranges⟩

/-- What an ascending list keeps when the ranges of another are cut out. -/
def remainingRanges : List CodeRange → List CodeRange → List CodeRange
  | [], _ => []
  | kept :: rest, [] => kept :: rest
  | kept :: rest, cut :: cuts =>
      if cut.last < kept.first then
        remainingRanges (kept :: rest) cuts
      else if kept.last < cut.first then
        kept :: remainingRanges rest (cut :: cuts)
      else
        let tail :=
          if kept.last ≤ cut.last then
            remainingRanges rest (cut :: cuts)
          else
            remainingRanges (⟨cut.last + 1, kept.last⟩ :: rest) cuts
        if kept.first < cut.first then
          ⟨kept.first, cut.first - 1⟩ :: tail
        else
          tail
  termination_by kept cuts => kept.length + cuts.length

/-- Members of the first set that are not in the second. -/
def subtract (left right : RangeList) : RangeList :=
  ⟨remainingRanges left.ranges right.ranges⟩

/-- Complement within all code points outside the surrogate gap. -/
def negate (set : RangeList) : RangeList := all.subtract set

/-- Members between two bounds, both included. -/
def clamp (set : RangeList) (first last : Nat) : RangeList :=
  set.intersect ⟨[⟨first, last⟩]⟩

/-- A set as its ranges between braces. -/
def display (set : RangeList) : String :=
  "\x7b" ++ ", ".intercalate (set.ranges.map CodeRange.display) ++ "\x7d"

end RangeList
end ParserGenerator
