import ParserGenerator.Categories
import ParserGenerator.RangeList

/-!
# Character data

The facts about characters that the library takes as given: the general
category of each code point and the case counterparts. All of the library is
stated for any such data. The code points of a set of categories are found by
one scan of the code space into runs of equal category.
-/

namespace ParserGenerator

/-- A run of neighbouring code points of one category. -/
abbrev CategoryRun := Category × CodeRange

/-- Extend a list of runs, latest first, by the next code point. -/
def extendRuns
    (runs : List CategoryRun)
    (category : Category)
    (point : Nat) : List CategoryRun :=
  match runs with
  | (current, range) :: rest =>
      if category = current then
        (current, ⟨range.first, point⟩) :: rest
      else
        (category, CodeRange.single point) :: runs
  | [] => [(category, CodeRange.single point)]

/-- The runs of equal category over the whole code space, ascending. -/
def categoryRuns (category : Nat → Category) : List CategoryRun :=
  (Nat.fold (maxCodePoint + 1)
    (fun point _ runs => extendRuns runs (category point) point) []).reverse

/-- Categories and case counterparts of the code points. -/
class CharacterData where
  /-- The general category of a code point. -/
  category : Nat → Category
  /-- Pairs of a code point and its upper- or lower-case counterpart. -/
  counterparts : List (Nat × Nat)
  /-- The runs of equal category, scanned once. -/
  runs : List CategoryRun := categoryRuns category
  /-- The runs are those of `category`. -/
  runs_eq : runs = categoryRuns category := by rfl

/-- The general category of a code point. -/
def Category.of [CharacterData] (point : Nat) : Category :=
  CharacterData.category point

/-- Every code point whose category is in a set. -/
def Categories.codePoints [CharacterData] (set : Categories) : RangeList :=
  ⟨RangeList.coalesce
    ((CharacterData.runs.filter fun run => set.contains run.1).map (·.2))⟩

/-- Add the upper- and lower-case counterparts of the members. -/
def RangeList.toAnyCase [CharacterData] (set : RangeList) : RangeList :=
  let added := CharacterData.counterparts.filter fun pair =>
    set.contains pair.1
  set.union (RangeList.ofRanges (added.map fun pair =>
    CodeRange.single pair.2))

end ParserGenerator
