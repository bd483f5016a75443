/-!
# White space

The characters with the Unicode property `White_Space`, and cutting text at
them.
-/

namespace ParserGenerator
namespace Text

/-- Whether a character is white space. -/
def isBlank (character : Char) : Bool :=
  let point := character.toNat
  (0x09 ≤ point && point ≤ 0x0D) || point == 0x20 || point == 0x85 ||
    point == 0xA0 || point == 0x1680 ||
    (0x2000 ≤ point && point ≤ 0x200A) || point == 0x2028 ||
    point == 0x2029 || point == 0x202F || point == 0x205F || point == 0x3000

/-- Characters without white space at the end. -/
def dropBlankEnd (characters : List Char) : List Char :=
  (characters.reverse.dropWhile isBlank).reverse

/-- Characters without white space at either end. -/
def trimmed (characters : List Char) : List Char :=
  dropBlankEnd (characters.dropWhile isBlank)

/-- Text without white space at either end. -/
def trim (text : String) : String := String.ofList (trimmed text.toList)

/-- The words of a text; `current` holds the letters of the last word so far,
latest first. -/
def wordsFrom (current : List Char) : List Char → List String
  | [] => if current.isEmpty then [] else [String.ofList current.reverse]
  | character :: rest =>
      if isBlank character then
        if current.isEmpty then
          wordsFrom [] rest
        else
          String.ofList current.reverse :: wordsFrom [] rest
      else
        wordsFrom (character :: current) rest

/-- The maximal parts of a text without white space. -/
def words (text : String) : List String := wordsFrom [] text.toList

end Text
end ParserGenerator
