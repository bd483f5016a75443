/-!
# Integers of 64 bits

Arithmetic on signed integers of 64 bits that fails instead of leaving the
range, and reading such integers as decimal text.
-/

namespace ParserGenerator
namespace Integer

/-- The least integer. -/
def least : Int := -0x8000000000000000

/-- The greatest integer. -/
def greatest : Int := 0x7FFFFFFFFFFFFFFF

/-- A number if it is in the range. -/
def checked (number : Int) : Option Int :=
  if least ≤ number ∧ number ≤ greatest then some number else none

/-- The sum. -/
def add (left right : Int) : Option Int := checked (left + right)

/-- The difference. -/
def subtract (left right : Int) : Option Int := checked (left - right)

/-- The product. -/
def multiply (left right : Int) : Option Int := checked (left * right)

/-- The quotient, rounded toward zero. -/
def divide (left right : Int) : Option Int :=
  if right = 0 then none else checked (left.tdiv right)

/-- The number with the other sign. -/
def negate (number : Int) : Option Int := checked (-number)

/-- Why a text is not an integer. -/
inductive ReadError
  | empty
  | invalidDigit
  | tooLarge
  | tooSmall
  deriving DecidableEq

namespace ReadError

/-- The wording of an error. -/
def message : ReadError → String
  | empty => "cannot parse integer from empty string"
  | invalidDigit => "invalid digit found in string"
  | tooLarge => "number too large to fit in target type"
  | tooSmall => "number too small to fit in target type"

/-- The name of the kind of an error. -/
def kind : ReadError → String
  | empty => "Empty"
  | invalidDigit => "InvalidDigit"
  | tooLarge => "PosOverflow"
  | tooSmall => "NegOverflow"

end ReadError

/-- The value of a decimal digit. -/
def digit? (character : Char) : Option Nat :=
  if character.isDigit then some (character.toNat - '0'.toNat) else none

/-- Digits after a number that was read already. The range is checked after
each digit, so that the first fault from the left counts. -/
def readDigits (negative : Bool) (number : Int) :
    List Char → Except ReadError Int
  | [] => .ok number
  | character :: rest =>
      match digit? character with
      | none => .error .invalidDigit
      | some digit =>
          let next :=
            if negative then number * 10 - digit else number * 10 + digit
          match checked next with
          | some next => readDigits negative next rest
          | none => .error (if negative then .tooSmall else .tooLarge)

/-- The integer that some characters denote: digits, possibly after a sign. -/
def readCharacters : List Char → Except ReadError Int
  | [] => .error .empty
  | '+' :: [] => .error .invalidDigit
  | '-' :: [] => .error .invalidDigit
  | '+' :: digits => readDigits false 0 digits
  | '-' :: digits => readDigits true 0 digits
  | digits => readDigits false 0 digits

/-- The integer that a text denotes. -/
def read (text : String) : Except ReadError Int := readCharacters text.toList

end Integer
end ParserGenerator
