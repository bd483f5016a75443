import ParserGenerator.CodeRange

/-!
# UTF-16 code units

Text as a sequence of 16-bit units. A supplementary code point is a high
surrogate followed by a low one; a surrogate that stands alone is no
character.
-/

namespace ParserGenerator

/-- A UTF-16 code unit. -/
abbrev CodeUnit := UInt16

/-- Whether a number is a high surrogate. -/
def isHighSurrogate (unit : Nat) : Bool :=
  surrogateFirst ≤ unit && unit < lowSurrogateFirst

/-- Whether a number is a low surrogate. -/
def isLowSurrogate (unit : Nat) : Bool :=
  lowSurrogateFirst ≤ unit && unit ≤ surrogateLast

/-- The high surrogate of a supplementary code point. -/
def highSurrogate (point : Nat) : Nat :=
  surrogateFirst + (point - supplementaryFirst) / 0x400

/-- The low surrogate of a supplementary code point. -/
def lowSurrogate (point : Nat) : Nat :=
  lowSurrogateFirst + (point - supplementaryFirst) % 0x400

/-- The code point of a pair of surrogates. -/
def joinSurrogates (high low : Nat) : Nat :=
  supplementaryFirst + (high - surrogateFirst) * 0x400 +
    (low - lowSurrogateFirst)

namespace Text

/-- The units of a code point. -/
def encodePoint (point : Nat) : List CodeUnit :=
  if point < supplementaryFirst then
    [point.toUInt16]
  else
    [(highSurrogate point).toUInt16, (lowSurrogate point).toUInt16]

/-- The units of a text. -/
def encode (text : String) : List CodeUnit :=
  text.toList.flatMap fun character => encodePoint character.toNat

/-- The character that stands for a surrogate without its partner. -/
def replacement : Char := '\uFFFD'

/-- The characters of a sequence of units. -/
def decodeCharacters : List CodeUnit → List Char
  | [] => []
  | [unit] =>
      if isSurrogate unit.toNat then
        [replacement]
      else
        [Char.ofNat unit.toNat]
  | unit :: next :: rest =>
      if isHighSurrogate unit.toNat && isLowSurrogate next.toNat then
        Char.ofNat (joinSurrogates unit.toNat next.toNat) ::
          decodeCharacters rest
      else if isSurrogate unit.toNat then
        replacement :: decodeCharacters (next :: rest)
      else
        Char.ofNat unit.toNat :: decodeCharacters (next :: rest)

/-- The text of a sequence of units. -/
def decode (units : List CodeUnit) : String :=
  String.ofList (decodeCharacters units)

end Text
end ParserGenerator
