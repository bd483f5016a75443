import ParserGenerator.CharSet.Reader
import ParserGenerator.Pattern

/-!
# The notation of patterns

Branches are divided by bars. A branch is a sequence of atoms, each followed
by any number of repetition marks. Atoms are characters, escapes, the dot,
classes and groups; `(?=p)` and `(?!p)` are conditions on what follows.
-/

namespace ParserGenerator
namespace Pattern

open Reader

/-- The greatest count of a repetition. -/
def countLimit : Nat := 1000

/-- The greatest number that a numeral in a count can stand for. Greater
numerals stand for it too, so two of them are never out of order. -/
def numeralLimit : Nat := 0xFFFFFFFF

/-- A decimal numeral, if a digit comes next. -/
def readNumber : Reader (Option Nat) := do
  let taken ← takeWhile fun character =>
    (Text.decimalDigit? character).isSome
  if taken.isEmpty then
    return none
  else
    let value := CharSet.numeral 10 (taken.filterMap Text.decimalDigit?)
    return some (min value numeralLimit)

/-- The bounds of a counted repetition between braces. -/
def readCount : Reader (Nat × Option Nat) := do
  let start ← position
  expect '\x7b'
  match ← readNumber with
  | none => fail .emptyCount
  | some least =>
      let most ← if ← eat ',' then readNumber else pure (some least)
      expect '\x7d'
      if most.any (· < least) then
        failAt start .boundsOutOfOrder
      else if countLimit < max least (most.getD 0) then
        failAt start .countTooLarge
      else
        return (least, most)

/-- Whether a brace comes next that opens a count. -/
def countFollows : Reader Bool := do
  let second ← peekSecond
  return (← peek) == some '\x7b' &&
    second.any fun character => (Text.decimalDigit? character).isSome

/-- The repetition marks after an atom. -/
def readMarks : (fuel : Nat) → Pattern → Reader Pattern
  | 0, atom => return atom
  | fuel + 1, atom => do
      if ← eat '*' then
        readMarks fuel (.repeat atom .zeroOrMore)
      else if ← eat '+' then
        readMarks fuel (.repeat atom .oneOrMore)
      else if ← eat '?' then
        readMarks fuel (.repeat atom .optional)
      else if ← countFollows then
        let (least, most) ← readCount
        readMarks fuel (unroll atom least most)
      else
        return atom

/-- The kinds of groups. -/
inductive GroupKind
  | plain
  | condition (negated : Bool)

/-- The kind of a group whose parenthesis has been read. -/
def readGroupKind (opening : Nat) : Reader GroupKind := do
  if ← eat '?' then
    match ← next with
    | some ':' => return .plain
    | some '=' => return .condition false
    | some '!' => return .condition true
    | _ => failAt opening .unknownGroup
  else
    return .plain

/-- The pattern of a group of the given kind. -/
def GroupKind.wrap (inner : Pattern) : GroupKind → Pattern
  | plain => inner
  | condition negated => lookahead inner negated

/-- The pattern of one character. -/
def literal (character : Char) : Pattern := text character.toString

/-- The pattern of one code point; a surrogate becomes a set, which no text
can match. -/
def ofCodePoint (point : Nat) : Pattern :=
  if isSurrogate point then
    set (CharSet.single point)
  else
    literal (Char.ofNat point)

/-- Add an item at the end of a sequence, joining neighbouring texts. The
items stand in reverse order. -/
def appendItem (items : List Pattern) (item : Pattern) : List Pattern :=
  match item, items with
  | text added, text before :: rest => text (before ++ added) :: rest
  | item, items => item :: items

variable [CharacterData]

/-- Every character but the line feed. -/
def dot : Pattern := set (CharSet.any.subtract (CharSet.single 0x0A))

/-- The pattern of an escape whose backslash has been read. -/
def readEscaped : Reader Pattern := do
  match ← CharSet.readEscape with
  | .character point => return ofCodePoint point
  | .set characters => return set characters

mutual

/-- Branches divided by bars. The fuel bounds the number of characters. -/
def readBranches : (fuel : Nat) → Reader (List Pattern)
  | 0 => fail .unexpectedEnd
  | fuel + 1 => do
      let branch ← readItems fuel []
      if ← eat '|' then
        return branch :: (← readBranches fuel)
      else
        return [branch]

/-- The items of a branch, which stand in reverse order. -/
def readItems : (fuel : Nat) → List Pattern → Reader Pattern
  | 0, _ => fail .unexpectedEnd
  | fuel + 1, items => do
      match ← peek with
      | none => return sequence items.reverse
      | some character =>
          if character = '|' || character = ')' then
            return sequence items.reverse
          else
            let atom ← readAtom fuel character
            let item ← readMarks ((← remaining) + 1) atom
            readItems fuel (appendItem items item)

/-- An atom that starts with the given character. -/
def readAtom : (fuel : Nat) → Char → Reader Pattern
  | 0, _ => fail .unexpectedEnd
  | fuel + 1, character => do
      if character = '[' then
        return set (← CharSet.readBracketed)
      else if character = '*' || character = '+' || character = '?' then
        fail .nothingToRepeat
      else
        let opening ← position
        let _ ← next
        if character = '(' then
          let kind ← readGroupKind opening
          let branches ← readBranches fuel
          if ← eat ')' then
            return kind.wrap (choice branches)
          else
            failAt opening .unclosedGroup
        else if character = '.' then
          return dot
        else if character = '\\' then
          readEscaped
        else
          return literal character

end

/-- A whole text as one pattern. -/
def readWhole : Reader Pattern := do
  let branches ← readBranches (3 * (← remaining) + 3)
  match ← peek with
  | none => return choice branches
  | some ')' => fail .unopenedGroup
  | some character => fail (.unexpected character)

/-- The pattern that a text describes. -/
def parse (text : String) : Except PatternError Pattern :=
  Reader.run readWhole text

end Pattern
end ParserGenerator
