import ParserGenerator.Lexical.Automaton

/-!
# Matchers

A single pattern compiled for matching at an offset of some input.
-/

namespace ParserGenerator
namespace Lexical

/-- A compiled pattern. -/
structure Matcher where
  /-- The automaton of the pattern. -/
  automaton : Automaton

/-- A part of an input that does not lie inside it. -/
inductive MatchError
  | offsetOutOfRange (offset size : Nat)
  | lengthOutOfRange (offset length size : Nat)
  deriving DecidableEq

/-- The wording of an error. -/
def MatchError.message : MatchError → String
  | offsetOutOfRange offset size =>
      s!"offset {offset} is out of range for input of length {size}"
  | lengthOutOfRange offset length size =>
      s!"length {length} at offset {offset} exceeds input of length {size}"

namespace Matcher

variable [CharacterData]

/-- Compile a pattern. -/
def ofPattern (pattern : Pattern) (anyCase : Bool) : Matcher :=
  ⟨Automaton.build [⟨pattern, false⟩] anyCase⟩

/-- The length of the longest match at the start of the input. -/
def matchUnits (matcher : Matcher) (input : List CodeUnit) : Option Nat :=
  match matcher.automaton.longestMatch input true with
  | .found _ length => some length
  | _ => none

/-- The length of the longest match at an offset, within `length` units. -/
def matchPart (matcher : Matcher) (input : List CodeUnit)
    (offset length : Nat) : Except MatchError (Option Nat) :=
  if input.length < offset then
    .error (.offsetOutOfRange offset input.length)
  else if input.length - offset < length then
    .error (.lengthOutOfRange offset length input.length)
  else
    .ok (matcher.matchUnits ((input.drop offset).take length))

end Matcher
end Lexical
end ParserGenerator
