import ParserGenerator.CharacterData

/-!
# Character sets

A character set has members given by ranges and by categories, without the
members of an excluded set, which may in turn exclude a set. The operations
stay with ranges and categories where they can and fall back on explicit
ranges otherwise.
-/

namespace ParserGenerator

/-- Code points given by ranges and by categories. -/
structure Members where
  /-- Members listed by range. -/
  ranges : RangeList
  /-- Members listed by category. -/
  categories : Categories
  deriving DecidableEq

namespace Members

/-- No members. -/
def empty : Members := ⟨RangeList.empty, Categories.empty⟩

/-- Whether nothing is listed. -/
def isEmpty (members : Members) : Bool :=
  members.ranges.isEmpty && members.categories.isEmpty

/-- Whether a code point is listed. -/
def contains [CharacterData] (members : Members) (point : Nat) : Bool :=
  members.ranges.contains point ||
    members.categories.contains (Category.of point)

/-- What either lists. -/
def union (left right : Members) : Members :=
  ⟨left.ranges.union right.ranges, left.categories.union right.categories⟩

/-- What both list. -/
def intersect [CharacterData] (left right : Members) : Members :=
  let shared := left.ranges.intersect right.ranges
  let shared :=
    if right.categories.isEmpty then
      shared
    else
      shared.union (left.ranges.intersect right.categories.codePoints)
  let shared :=
    if left.categories.isEmpty then
      shared
    else
      shared.union (right.ranges.intersect left.categories.codePoints)
  ⟨shared, left.categories.intersect right.categories⟩

/-- The case-insensitive closure. -/
def toAnyCase [CharacterData] (members : Members) : Members :=
  ⟨members.ranges.toAnyCase, members.categories.toAnyCase⟩

/-- The members as explicit ranges. -/
def flatten [CharacterData] (members : Members) : RangeList :=
  if members.categories.isEmpty then
    members.ranges
  else
    members.ranges.union members.categories.codePoints

/-- The part that one UTF-16 unit can stand for. -/
def toUnits (members : Members) : Members :=
  ⟨(members.ranges.clamp 0 (supplementaryFirst - 1)).subtract
      RangeList.surrogates,
    members.categories.intersect Categories.scalars⟩

/-- The listed ranges and categories, divided by blanks. -/
def display (members : Members) : String :=
  let ranges := members.ranges.ranges.map CodeRange.display
  let categories :=
    if members.categories.isEmpty then
      []
    else
      ["\\p\x7b" ++ members.categories.display ++ "\x7d"]
  " ".intercalate (ranges ++ categories)

end Members

/-- A set of characters. -/
inductive CharSet
  | plain (members : Members)
  | except (members : Members) (excluded : CharSet)
  deriving DecidableEq

namespace CharSet

/-- The listed members, whatever is excluded. -/
def members : CharSet → Members
  | plain members => members
  | except members _ => members

/-- The excluded set. -/
def excluded? : CharSet → Option CharSet
  | plain _ => none
  | except _ excluded => some excluded

/-- The empty set. -/
def empty : CharSet := plain Members.empty

instance : Inhabited CharSet := ⟨empty⟩

/-- The set of the code points of some ranges. -/
def ofRanges (ranges : RangeList) : CharSet :=
  plain ⟨ranges, Categories.empty⟩

/-- The set of the code points of some categories. -/
def ofCategories (categories : Categories) : CharSet :=
  plain ⟨RangeList.empty, categories⟩

/-- The set of one code point. -/
def single (point : Nat) : CharSet := ofRanges (RangeList.single point)

/-- The set of the code points from `first` to `last`. -/
def interval (first last : Nat) : CharSet :=
  ofRanges (RangeList.ofRanges [⟨first, last⟩])

/-- Every character. -/
def any : CharSet := ofCategories Categories.scalars

/-- Whether nothing is listed, whatever is excluded. -/
def isEmpty (set : CharSet) : Bool := set.members.isEmpty

/-- Membership of a code point. -/
def contains [CharacterData] : CharSet → Nat → Bool
  | plain members, point => members.contains point
  | except members excluded, point =>
      members.contains point && !excluded.contains point

/-- Members without an excluded set; excluding nothing leaves them plain. -/
def minus (members : Members) (excluded : CharSet) : CharSet :=
  if excluded.isEmpty then plain members else except members excluded

/-- The members as explicit ranges. -/
def flatten [CharacterData] : CharSet → RangeList
  | plain members => members.flatten
  | except members excluded => members.flatten.subtract excluded.flatten

mutual

/-- Add members: `(P - E) + Q` is `(P + Q) - (E - Q)`. -/
def unionMembers : CharSet → Members → CharSet
  | plain members, added => plain (members.union added)
  | except members excluded, added =>
      minus (members.union added) (excluded.subtractMembers added)

/-- Remove members: `(P - E) - Q` is `P - (E + Q)`. -/
def subtractMembers : CharSet → Members → CharSet
  | plain members, removed =>
      if removed.isEmpty then
        plain members
      else
        minus members (plain removed)
  | except members excluded, removed =>
      if removed.isEmpty then
        except members excluded
      else
        minus members (excluded.unionMembers removed)

end

/-- Members of either set. -/
def union [CharacterData] (left right : CharSet) : CharSet :=
  match left, right with
  | left, plain added => left.unionMembers added
  | plain added, right => right.unionMembers added
  | left, right => ofRanges (left.flatten.union right.flatten)

/-- Members of both sets. -/
def intersect [CharacterData] (left right : CharSet) : CharSet :=
  let shared := left.members.intersect right.members
  match left.excluded?, right.excluded? with
  | none, none => plain shared
  | some excluded, none => minus shared excluded
  | none, some excluded => minus shared excluded
  | some first, some second => minus shared (first.union second)

/-- Members of the first set that are not in the second. -/
def subtract [CharacterData] (left right : CharSet) : CharSet :=
  if right.isEmpty then
    left
  else
    match left with
    | plain members => minus members right
    | except members excluded => minus members (excluded.union right)

/-- Complement within all code points outside the surrogate gap. -/
def negate [CharacterData] (set : CharSet) : CharSet :=
  match set with
  | except _ _ => ofRanges set.flatten.negate
  | plain members =>
      let categories := members.categories.negate.intersect Categories.scalars
      if members.ranges.isEmpty then
        ofCategories categories
      else
        minus ⟨RangeList.empty, categories⟩ (ofRanges members.ranges)

/-- The case-insensitive closure of every part. -/
def toAnyCase [CharacterData] : CharSet → CharSet
  | plain members => plain members.toAnyCase
  | except members excluded => except members.toAnyCase excluded.toAnyCase

/-- The members that take two units in UTF-16. -/
def supplementary [CharacterData] (set : CharSet) : RangeList :=
  set.flatten.clamp supplementaryFirst maxCodePoint

/-- The part that one UTF-16 unit can stand for. -/
def toUnits : CharSet → CharSet
  | plain members => plain members.toUnits
  | except members excluded => minus members.toUnits excluded.toUnits

/-- The number of listed ranges is within `limit` all along the chain of
exclusions. -/
def rangesWithin (limit : Nat) : CharSet → Bool
  | plain members => members.ranges.ranges.length ≤ limit
  | except members excluded =>
      members.ranges.ranges.length ≤ limit && excluded.rangesWithin limit

/-- A set between brackets, the excluded set after a hyphen. -/
def display : CharSet → String
  | plain members => "[" ++ members.display ++ "]"
  | except members excluded =>
      "[" ++ members.display ++ "-" ++ excluded.display ++ "]"

end CharSet
end ParserGenerator
