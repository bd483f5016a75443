import ParserGenerator.Pattern
import ParserGenerator.Text.Hex

/-!
# Patterns as trees

A pattern written with its operators in front of their operands, each in
parentheses, for a look at how a notation was understood.
-/

namespace ParserGenerator

/-- The sign of a repetition. -/
def Repetition.sign : Repetition → String
  | zeroOrMore => "*"
  | oneOrMore => "+"
  | optional => "?"

namespace Pattern

/-- A character of a literal; all but visible ASCII is written by number. -/
def displayCharacter (character : Char) : String :=
  if ' ' ≤ character && character ≤ '~' && character != '"' &&
      character != '\\' then
    character.toString
  else
    "\\u\x7b" ++ Text.lowerHex character.toNat ++ "\x7d"

/-- The greatest number of ranges that are written out. -/
def displayedRanges : Nat := 64

/-- A set, or the number of its ranges if there are too many. -/
def displaySet (set : CharSet) : String :=
  if set.rangesWithin displayedRanges then
    set.display
  else
    s!"[#{set.members.ranges.ranges.length}]"

mutual

/-- A pattern as a tree. -/
def display : Pattern → String
  | text content =>
      "\"" ++ String.join (content.toList.map displayCharacter) ++ "\""
  | set characters => displaySet characters
  | concat items => "(cat" ++ displayAll items ++ ")"
  | alternate items => "(alt" ++ displayAll items ++ ")"
  | .repeat item repetition =>
      "(" ++ repetition.sign ++ " " ++ item.display ++ ")"
  | lookahead condition negated =>
      (if negated then "(! " else "(= ") ++ condition.display ++ ")"

/-- Some patterns as trees, with a blank before each. -/
def displayAll : List Pattern → String
  | [] => ""
  | item :: rest => " " ++ item.display ++ displayAll rest

end
end Pattern
end ParserGenerator
