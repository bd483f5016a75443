import ParserGenerator.Text.Blank

/-!
# Lines of a text

Cutting text at line feeds and at single characters.
-/

namespace ParserGenerator
namespace Text

/-- The parts of some characters between occurrences of one. -/
def splitAt (separator : Char) : List Char → List (List Char)
  | [] => [[]]
  | character :: rest =>
      if character = separator then
        [] :: splitAt separator rest
      else
        match splitAt separator rest with
        | part :: parts => (character :: part) :: parts
        | [] => [[character]]

/-- The lines of a text without their line feeds. -/
def lines (text : String) : List (List Char) := splitAt '\n' text.toList

end Text
end ParserGenerator
