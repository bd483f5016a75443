import ParserGenerator.Category

/-!
# Sets of general categories

One bit for each category. The textual names of category sets are the
abbreviations, the one-letter groups, and long names read loosely.
-/

namespace ParserGenerator

/-- A set of general categories. -/
structure Categories where
  /-- Bit `n` stands for the category at position `n`. -/
  bits : BitVec 30
  deriving DecidableEq

namespace Categories

/-- No category. -/
def empty : Categories := ⟨0#30⟩

/-- Every category. -/
def all : Categories := ⟨BitVec.allOnes 30⟩

/-- Membership of a category. -/
def contains (set : Categories) (category : Category) : Bool :=
  set.bits.getLsbD category.index

/-- The set with one member. -/
def single (category : Category) : Categories :=
  ⟨BitVec.twoPow 30 category.index⟩

/-- Members of either set. -/
def union (left right : Categories) : Categories :=
  ⟨left.bits ||| right.bits⟩

/-- Members of both sets. -/
def intersect (left right : Categories) : Categories :=
  ⟨left.bits &&& right.bits⟩

/-- Members of the first set that are not in the second. -/
def subtract (left right : Categories) : Categories :=
  ⟨left.bits &&& ~~~right.bits⟩

/-- The categories outside a set. -/
def negate (set : Categories) : Categories := ⟨~~~set.bits⟩

/-- Add one category. -/
def insert (set : Categories) (category : Category) : Categories :=
  set.union (single category)

/-- The set of the listed categories. -/
def ofList (categories : List Category) : Categories :=
  categories.foldl insert empty

/-- The members in the customary order. -/
def toList (set : Categories) : List Category :=
  Category.all.filter set.contains

/-- Whether the set has no member. -/
def isEmpty (set : Categories) : Bool := set == empty

/-- Whether every category is a member. -/
def isAll (set : Categories) : Bool := set == all

/-- Upper-, lower- and title-case letters. -/
def casedLetters : Categories :=
  ofList [.uppercaseLetter, .lowercaseLetter, .titlecaseLetter]

/-- Every category but that of the surrogates. -/
def scalars : Categories := all.subtract (single .surrogate)

/-- One kind of cased letter brings in all three. -/
def toAnyCase (set : Categories) : Categories :=
  if (set.intersect casedLetters).isEmpty then set else set.union casedLetters

/-- The categories whose abbreviation starts with the given letter. -/
def group (letter : Char) : Categories :=
  ofList (Category.all.filter fun category =>
    category.abbreviation.toList.head? == some letter)

/-- Lower case of a letter in a name; the Kelvin sign is a form of `k`. -/
def foldLetter (letter : Char) : Char :=
  if letter.toNat = 0x212A then 'k' else letter.toLower

/-- A long name without blanks, underscores, hyphens and letter case. -/
def looseName (name : String) : String :=
  String.ofList <|
    (name.toList.filter fun letter =>
      letter != ' ' && letter != '_' && letter != '-').map foldLetter

/-- A group of categories by its one- or two-letter name. -/
def ofGroupName? : String → Option Categories
  | "L" => some (group 'L')
  | "LC" => some casedLetters
  | "L&" => some casedLetters
  | "M" => some (group 'M')
  | "N" => some (group 'N')
  | "P" => some (group 'P')
  | "S" => some (group 'S')
  | "Z" => some (group 'Z')
  | "C" => some (group 'C')
  | _ => none

/-- A group of categories by its long name. -/
def ofLongGroupName? : String → Option Categories
  | "letter" => some (group 'L')
  | "casedletter" => some casedLetters
  | "mark" => some (group 'M')
  | "number" => some (group 'N')
  | "punctuation" => some (group 'P')
  | "symbol" => some (group 'S')
  | "separator" => some (group 'Z')
  | "other" => some (group 'C')
  | _ => none

/-- The set with the given name: an abbreviation, a group, or a long name. -/
def ofName? (name : String) : Option Categories :=
  ((Category.ofAbbreviation? name).map single)
    <|> ofGroupName? name
    <|> (Category.ofLongName? (looseName name)).map single
    <|> ofLongGroupName? (looseName name)

/-- The abbreviations joined by bars; a star for the full set. -/
def display (set : Categories) : String :=
  if set.isAll then
    "*"
  else
    "|".intercalate (set.toList.map Category.abbreviation)

end Categories
end ParserGenerator
