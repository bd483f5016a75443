/-!
# General categories

The thirty general categories of Unicode in their customary order, with
their abbreviations and long names.
-/

namespace ParserGenerator

/-- A general category. -/
inductive Category
  | uppercaseLetter
  | lowercaseLetter
  | titlecaseLetter
  | modifierLetter
  | otherLetter
  | nonspacingMark
  | spacingMark
  | enclosingMark
  | decimalNumber
  | letterNumber
  | otherNumber
  | connectorPunctuation
  | dashPunctuation
  | openPunctuation
  | closePunctuation
  | initialPunctuation
  | finalPunctuation
  | otherPunctuation
  | mathSymbol
  | currencySymbol
  | modifierSymbol
  | otherSymbol
  | spaceSeparator
  | lineSeparator
  | paragraphSeparator
  | control
  | format
  | surrogate
  | privateUse
  | unassigned
  deriving DecidableEq

namespace Category

/-- The position of a category in the customary order. -/
def index : Category → Nat
  | uppercaseLetter => 0
  | lowercaseLetter => 1
  | titlecaseLetter => 2
  | modifierLetter => 3
  | otherLetter => 4
  | nonspacingMark => 5
  | spacingMark => 6
  | enclosingMark => 7
  | decimalNumber => 8
  | letterNumber => 9
  | otherNumber => 10
  | connectorPunctuation => 11
  | dashPunctuation => 12
  | openPunctuation => 13
  | closePunctuation => 14
  | initialPunctuation => 15
  | finalPunctuation => 16
  | otherPunctuation => 17
  | mathSymbol => 18
  | currencySymbol => 19
  | modifierSymbol => 20
  | otherSymbol => 21
  | spaceSeparator => 22
  | lineSeparator => 23
  | paragraphSeparator => 24
  | control => 25
  | format => 26
  | surrogate => 27
  | privateUse => 28
  | unassigned => 29

/-- Every category in the customary order. -/
def all : List Category :=
  [uppercaseLetter, lowercaseLetter, titlecaseLetter, modifierLetter,
    otherLetter, nonspacingMark, spacingMark, enclosingMark, decimalNumber,
    letterNumber, otherNumber, connectorPunctuation, dashPunctuation,
    openPunctuation, closePunctuation, initialPunctuation, finalPunctuation,
    otherPunctuation, mathSymbol, currencySymbol, modifierSymbol, otherSymbol,
    spaceSeparator, lineSeparator, paragraphSeparator, control, format,
    surrogate, privateUse, unassigned]

/-- The two-letter abbreviation. -/
def abbreviation : Category → String
  | uppercaseLetter => "Lu"
  | lowercaseLetter => "Ll"
  | titlecaseLetter => "Lt"
  | modifierLetter => "Lm"
  | otherLetter => "Lo"
  | nonspacingMark => "Mn"
  | spacingMark => "Mc"
  | enclosingMark => "Me"
  | decimalNumber => "Nd"
  | letterNumber => "Nl"
  | otherNumber => "No"
  | connectorPunctuation => "Pc"
  | dashPunctuation => "Pd"
  | openPunctuation => "Ps"
  | closePunctuation => "Pe"
  | initialPunctuation => "Pi"
  | finalPunctuation => "Pf"
  | otherPunctuation => "Po"
  | mathSymbol => "Sm"
  | currencySymbol => "Sc"
  | modifierSymbol => "Sk"
  | otherSymbol => "So"
  | spaceSeparator => "Zs"
  | lineSeparator => "Zl"
  | paragraphSeparator => "Zp"
  | control => "Cc"
  | format => "Cf"
  | surrogate => "Cs"
  | privateUse => "Co"
  | unassigned => "Cn"

/-- The long name in lower case and without separators. -/
def longName : Category → String
  | uppercaseLetter => "uppercaseletter"
  | lowercaseLetter => "lowercaseletter"
  | titlecaseLetter => "titlecaseletter"
  | modifierLetter => "modifierletter"
  | otherLetter => "otherletter"
  | nonspacingMark => "nonspacingmark"
  | spacingMark => "spacingmark"
  | enclosingMark => "enclosingmark"
  | decimalNumber => "decimalnumber"
  | letterNumber => "letternumber"
  | otherNumber => "othernumber"
  | connectorPunctuation => "connectorpunctuation"
  | dashPunctuation => "dashpunctuation"
  | openPunctuation => "openpunctuation"
  | closePunctuation => "closepunctuation"
  | initialPunctuation => "initialpunctuation"
  | finalPunctuation => "finalpunctuation"
  | otherPunctuation => "otherpunctuation"
  | mathSymbol => "mathsymbol"
  | currencySymbol => "currencysymbol"
  | modifierSymbol => "modifiersymbol"
  | otherSymbol => "othersymbol"
  | spaceSeparator => "spaceseparator"
  | lineSeparator => "lineseparator"
  | paragraphSeparator => "paragraphseparator"
  | control => "control"
  | format => "format"
  | surrogate => "surrogate"
  | privateUse => "privateuse"
  | unassigned => "unassigned"

/-- The category with the given abbreviation. -/
def ofAbbreviation? (text : String) : Option Category :=
  all.find? (·.abbreviation == text)

/-- The category with the given long name. -/
def ofLongName? (text : String) : Option Category :=
  all.find? (·.longName == text)

theorem index_lt (category : Category) : category.index < 30 := by
  cases category <;> decide

theorem mem_all (category : Category) : category ∈ all := by
  cases category <;> decide

end Category
end ParserGenerator
