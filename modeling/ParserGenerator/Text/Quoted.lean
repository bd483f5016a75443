import ParserGenerator.CharacterData
import ParserGenerator.Text.Hex

/-!
# Quoted text

Text and characters between quotes for messages. The backslash, the quote in
use and every character that would not show by itself are escaped.
-/

namespace ParserGenerator
namespace Text

/-- Categories of characters that do not show by themselves: separators,
controls, and marks that attach to the character before them. -/
def hiddenCategories : Categories :=
  Categories.ofList
    [.nonspacingMark, .enclosingMark, .spaceSeparator, .lineSeparator,
      .paragraphSeparator, .control, .format, .surrogate, .privateUse,
      .unassigned]

/-- Whether a character shows by itself; a blank does. -/
def isVisible [CharacterData] (character : Char) : Bool :=
  character == ' ' ||
    !hiddenCategories.contains (Category.of character.toNat)

/-- A character inside quotes of the given kind. -/
def escape [CharacterData] (quote character : Char) : String :=
  if character == '\\' || character == quote then
    String.ofList ['\\', character]
  else if character == '\t' then
    "\\t"
  else if character == '\n' then
    "\\n"
  else if character == '\r' then
    "\\r"
  else if character == '\x00' then
    "\\0"
  else if isVisible character then
    character.toString
  else
    "\\u\x7b" ++ lowerHex character.toNat ++ "\x7d"

/-- Text between double quotes. -/
def quote [CharacterData] (text : String) : String :=
  "\"" ++ String.join (text.toList.map (escape '"')) ++ "\""

/-- A character between single quotes. -/
def quoteCharacter [CharacterData] (character : Char) : String :=
  "'" ++ escape '\'' character ++ "'"

end Text
end ParserGenerator
