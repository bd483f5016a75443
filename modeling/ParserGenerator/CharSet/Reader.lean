import ParserGenerator.CharSet
import ParserGenerator.CharSet.Cursor
import ParserGenerator.Text.Blank
import ParserGenerator.Text.Units

/-!
# The notation of character sets

A character set is written as a single character, an escape such as `\d` or
`\p{Lu}`, or a class between brackets. A class may start with `^` for its
complement and may end with `-` and a class to subtract.
-/

namespace ParserGenerator
namespace CharSet

open Reader

/-- What an escape stands for. -/
inductive Escape
  | character (point : Nat)
  | set (characters : CharSet)

/-- The set that an escape stands for. -/
def Escape.toSet : Escape → CharSet
  | character point => CharSet.single point
  | set characters => characters

variable [CharacterData]

/-- Decimal digits. -/
def digits : CharSet := ofCategories (Categories.single .decimalNumber)

/-- Characters of words: letters, marks, digits and connectors. -/
def wordCharacters : CharSet :=
  ofCategories (Categories.ofList
    [.uppercaseLetter, .lowercaseLetter, .titlecaseLetter, .modifierLetter,
      .otherLetter, .nonspacingMark, .decimalNumber, .connectorPunctuation])

/-- White space. -/
def blanks : CharSet :=
  plain
    ⟨RangeList.ofRanges
        [⟨0x09, 0x0D⟩, ⟨0x20, 0x20⟩, ⟨0x85, 0x85⟩, ⟨0xA0, 0xA0⟩],
      Categories.ofList [.spaceSeparator, .lineSeparator, .paragraphSeparator]⟩

/-- The class that a letter after a backslash stands for. -/
def shorthand? : Char → Option CharSet
  | 'd' => some digits
  | 'D' => some digits.negate
  | 'w' => some wordCharacters
  | 'W' => some wordCharacters.negate
  | 's' => some blanks
  | 'S' => some blanks.negate
  | _ => none

/-- The control character that a letter after a backslash stands for. -/
def control? : Char → Option Nat
  | 'n' => some 0x0A
  | 'r' => some 0x0D
  | 't' => some 0x09
  | 'f' => some 0x0C
  | 'v' => some 0x0B
  | 'a' => some 0x07
  | 'e' => some 0x1B
  | '0' => some 0x00
  | _ => none

/-- Whether a character is an ASCII punctuation mark. -/
def isPunctuation (character : Char) : Bool :=
  let point := character.toNat
  (0x21 ≤ point && point ≤ 0x2F) || (0x3A ≤ point && point ≤ 0x40) ||
    (0x5B ≤ point && point ≤ 0x60) || (0x7B ≤ point && point ≤ 0x7E)

/-- The value of a numeral, most significant digit first. -/
def numeral (base : Nat) (digits : List Nat) : Nat :=
  digits.foldl (fun value digit => value * base + digit) 0

/-- Exactly `count` hexadecimal digits of the escape that began at `start`. -/
def readHex (start : Nat) : (count value : Nat) → Reader Nat
  | 0, value => return value
  | count + 1, value => do
      match (← next).bind Text.hexDigit? with
      | some digit => readHex start count (value * 16 + digit)
      | none => failAt start .invalidHexadecimal

/-- The low surrogate of an escape that comes next, if one does. -/
def lowSurrogateAhead (cursor : Cursor) : Option (Nat × Cursor) :=
  match cursor with
  | ⟨'\\' :: 'u' :: rest, position⟩ =>
      match StateT.run (readHex position 4 0) ⟨rest, position + 2⟩ with
      | .ok (low, after) =>
          if isLowSurrogate low then some (low, after) else none
      | .error _ => none
  | _ => none

/-- The code point after a backslash and the letter `u`: digits between
braces, or four digits, where two escapes may form a pair of surrogates. -/
def readCodePoint (start : Nat) : Reader Nat := do
  if ← eat '\x7b' then
    let taken ← takeWhile fun character =>
      (Text.hexDigit? character).isSome
    expect '\x7d'
    let value := numeral 16 (taken.filterMap Text.hexDigit?)
    if taken.isEmpty || maxCodePoint < value then
      failAt start .invalidCodePoint
    else
      return value
  else
    let value ← readHex start 4 0
    if isHighSurrogate value then
      match lowSurrogateAhead (← get) with
      | some (low, after) =>
          set after
          return joinSurrogates value low
      | none => return value
    else
      return value

/-- The name after `\p`: one character, or any text between braces. -/
def readCategoryName (start : Nat) : Reader String := do
  if ← eat '\x7b' then
    let name ← takeWhile (· != '\x7d')
    if ← eat '\x7d' then
      return String.ofList name
    else
      failAt start .unterminatedCategory
  else
    match ← next with
    | some character => return character.toString
    | none => failAt start .missingCategory

/-- The characters of a category name read after `\p`. -/
def readCategory (start : Nat) : Reader CharSet := do
  let name ← readCategoryName start
  match Categories.ofName? (Text.trim name) with
  | some categories => return ofCategories categories
  | none => failAt start (.unknownCategory name)

/-- An escape whose backslash has been read. -/
def readEscape : Reader Escape := do
  let start := (← position) - 1
  match ← next with
  | none => failAt start .danglingBackslash
  | some character =>
      if let some point := control? character then
        return .character point
      else if let some characters := shorthand? character then
        return .set characters
      else if character = 'x' then
        return .character (← readHex start 2 0)
      else if character = 'u' then
        return .character (← readCodePoint start)
      else if character = 'p' then
        return .set (← readCategory start)
      else if character = 'P' then
        return .set (← readCategory start).negate
      else if isPunctuation character || character = ' ' then
        return .character character.toNat
      else
        failAt start (.unknownEscape character)

/-- One character or escape inside a class. -/
def readAtom : Reader Escape := do
  match ← next with
  | none => fail .unterminatedClass
  | some '\\' => readEscape
  | some character => return .character character.toNat

/-- Whether a hyphen comes next that joins two ends of a range. -/
def rangeFollows : Reader Bool := do
  let second ← peekSecond
  return (← peek) == some '-' && second != some ']' && second != some '['

/-- One item of a class: a range, a single character or an escape. -/
def readItem : Reader CharSet := do
  let start ← position
  match ← readAtom with
  | .set characters => return characters
  | .character first =>
      if ← rangeFollows then
        let _ ← next
        match ← readAtom with
        | .set _ => fail .escapeEndsRange
        | .character last =>
            if last < first then
              failAt start .rangeOutOfOrder
            else
              return interval first last
      else
        return single first

/-- The content of a class: the union of its items and what is subtracted. -/
structure ClassBody where
  /-- The union of the items. -/
  items : CharSet
  /-- The number of items. -/
  count : Nat
  /-- The class to subtract. -/
  subtracted : Option CharSet

mutual

/-- A class between brackets. The fuel bounds the number of characters. -/
def readClass : (fuel : Nat) → Reader CharSet
  | 0 => fail .unterminatedClass
  | fuel + 1 => do
      let opening ← position
      expect '['
      let negated ← eat '^'
      let body ← readItems fuel opening ⟨CharSet.empty, 0, none⟩
      if body.count = 0 then
        failAt opening .emptyClass
      else
        let items := if negated then body.items.negate else body.items
        match body.subtracted with
        | some subtracted => return items.subtract subtracted
        | none => return items

/-- The items of a class up to its closing bracket. -/
def readItems : (fuel opening : Nat) → ClassBody → Reader ClassBody
  | 0, _, _ => fail .unterminatedClass
  | fuel + 1, opening, body => do
      match ← peek with
      | none => failAt opening .unterminatedClass
      | some ']' =>
          let _ ← next
          return body
      | some character =>
          if character = '-' && (← peekSecond) = some '[' then
            let _ ← next
            let subtracted ← readClass fuel
            if ← eat ']' then
              return { body with subtracted := some subtracted }
            else
              fail .subtractionNotLast
          else
            let item ← readItem
            readItems fuel opening
              { body with
                items := body.items.union item
                count := body.count + 1 }

end

/-- A class between brackets that comes next. -/
def readBracketed : Reader CharSet := do
  readClass ((← remaining) + 1)

/-- A class, an escape or a single character. -/
def readSet : Reader CharSet := do
  match ← peek with
  | none => fail .emptySet
  | some '[' => readBracketed
  | some _ => return (← readAtom).toSet

/-- A whole text as one character set. -/
def readWhole : Reader CharSet := do
  let characters ← readSet
  if (← remaining) = 0 then
    return characters
  else
    fail .trailingCharacters

/-- The character set that a text describes. -/
def parse (text : String) : Except PatternError CharSet :=
  Reader.run readWhole text

end CharSet
end ParserGenerator
