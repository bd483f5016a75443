/-!
# Hexadecimal numerals

Numerals in base sixteen, as code points are written in dumps (upper case,
at least four digits) and in quoted text (lower case, no padding).
-/

namespace ParserGenerator
namespace Text

/-- The value of a hexadecimal digit of either case. -/
def hexDigit? (character : Char) : Option Nat :=
  if '0' ≤ character ∧ character ≤ '9' then
    some (character.toNat - '0'.toNat)
  else if 'a' ≤ character ∧ character ≤ 'f' then
    some (character.toNat - 'a'.toNat + 10)
  else if 'A' ≤ character ∧ character ≤ 'F' then
    some (character.toNat - 'A'.toNat + 10)
  else
    none

/-- The value of a decimal digit. -/
def decimalDigit? (character : Char) : Option Nat :=
  if '0' ≤ character ∧ character ≤ '9' then
    some (character.toNat - '0'.toNat)
  else
    none

/-- Lower-case hexadecimal numeral without padding. -/
def lowerHex (value : Nat) : String :=
  String.ofList (Nat.toDigits 16 value)

/-- Upper-case hexadecimal numeral with at least `width` digits. -/
def upperHex (width value : Nat) : String :=
  let digits := (Nat.toDigits 16 value).map Char.toUpper
  String.ofList (List.replicate (width - digits.length) '0' ++ digits)

end Text
end ParserGenerator
