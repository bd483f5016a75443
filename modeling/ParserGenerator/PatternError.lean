import ParserGenerator.Text.Quoted

/-!
# Errors in pattern text

What can be wrong with the text of a pattern or of a character set, and how
it is reported.
-/

namespace ParserGenerator

/-- What is wrong with the text of a pattern. -/
inductive PatternFault
  | emptySet
  | trailingCharacters
  | unterminatedClass
  | subtractionNotLast
  | escapeEndsRange
  | rangeOutOfOrder
  | emptyClass
  | danglingBackslash
  | unterminatedCategory
  | missingCategory
  | unknownCategory (name : String)
  | unknownEscape (character : Char)
  | invalidCodePoint
  | invalidHexadecimal
  | expected (character : Char)
  | unexpected (character : Char)
  | unexpectedEnd
  | unopenedGroup
  | unclosedGroup
  | unknownGroup
  | nothingToRepeat
  | emptyCount
  | boundsOutOfOrder
  | countTooLarge
  deriving DecidableEq

/-- A fault at a position, counted in characters. -/
structure PatternError where
  /-- The whole text. -/
  pattern : String
  /-- Where the fault is. -/
  position : Nat
  /-- What is wrong. -/
  fault : PatternFault
  deriving DecidableEq

variable [CharacterData]

/-- The wording of a fault. -/
def PatternFault.message : PatternFault → String
  | emptySet => "empty character set"
  | trailingCharacters => "unexpected trailing characters"
  | unterminatedClass => "unterminated character class"
  | subtractionNotLast => "class subtraction must be the last item"
  | escapeEndsRange => "class escape cannot end a range"
  | rangeOutOfOrder => "range out of order"
  | emptyClass => "empty character class"
  | danglingBackslash => "dangling backslash"
  | unterminatedCategory => "unterminated category name"
  | missingCategory => "missing category name"
  | unknownCategory name => "unknown category " ++ Text.quote name
  | unknownEscape character => "unknown escape \\" ++ character.toString
  | invalidCodePoint => "invalid code point"
  | invalidHexadecimal => "invalid hexadecimal escape"
  | expected character => "expected " ++ Text.quoteCharacter character
  | unexpected character => "unexpected " ++ Text.quoteCharacter character
  | unexpectedEnd => "unexpected end of pattern"
  | unopenedGroup => "unbalanced ')'"
  | unclosedGroup => "unbalanced '('"
  | unknownGroup => "unknown group kind"
  | nothingToRepeat => "repetition operator has nothing to repeat"
  | emptyCount => "repetition count is empty"
  | boundsOutOfOrder => "repetition bounds out of order"
  | countTooLarge => "repetition count too large"

/-- The wording of an error. -/
def PatternError.message (error : PatternError) : String :=
  s!"pattern syntax error at {error.position} in " ++
    Text.quote error.pattern ++ ": " ++ error.fault.message

end ParserGenerator
