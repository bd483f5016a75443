import ParserGenerator.CharSet

/-!
# Patterns

A pattern describes the text of a terminal: literal text, one character of a
set, sequences, choices, repetitions, and conditions on the text that
follows.
-/

namespace ParserGenerator

/-- How often the operand of a repetition may occur. -/
inductive Repetition
  | zeroOrMore
  | oneOrMore
  | optional
  deriving DecidableEq

/-- The description of a set of texts. -/
inductive Pattern
  | text (content : String)
  | set (characters : CharSet)
  | concat (items : List Pattern)
  | alternate (items : List Pattern)
  | repeat (item : Pattern) (repetition : Repetition)
  | lookahead (condition : Pattern) (negated : Bool)

namespace Pattern

/-- The pattern of the empty text. -/
def empty : Pattern := concat []

instance : Inhabited Pattern := ⟨empty⟩

/-- A sequence; a single operand stands for itself. -/
def sequence : List Pattern → Pattern
  | [item] => item
  | items => concat items

/-- A choice; a single operand stands for itself. -/
def choice : List Pattern → Pattern
  | [item] => item
  | items => alternate items

/-- A pattern that has to be followed by another one. -/
def followedBy (pattern next : Pattern) : Pattern :=
  sequence [pattern, lookahead next false]

/-- A pattern that must not be followed by another one. -/
def notFollowedBy (pattern next : Pattern) : Pattern :=
  sequence [pattern, lookahead next true]

mutual

/-- Whether a pattern may match without reading anything; conditions are
taken to hold. -/
def isNullable : Pattern → Bool
  | text content => content.isEmpty
  | set _ => false
  | concat items => allNullable items
  | alternate items => anyNullable items
  | .repeat item .oneOrMore => item.isNullable
  | .repeat _ _ => true
  | lookahead _ _ => true

/-- Whether every one of some patterns is nullable. -/
def allNullable : List Pattern → Bool
  | [] => true
  | item :: rest => item.isNullable && allNullable rest

/-- Whether one of some patterns is nullable. -/
def anyNullable : List Pattern → Bool
  | [] => false
  | item :: rest => item.isNullable || anyNullable rest

end

/-- Optional copies nested from the inside out: `(p(p(p)?)?)?`. -/
def optionalCopies (pattern : Pattern) : Nat → Option Pattern
  | 0 => none
  | count + 1 =>
      match optionalCopies pattern count with
      | none => some (.repeat pattern .optional)
      | some tail => some (.repeat (sequence [pattern, tail]) .optional)

/-- A counted repetition as copies of the pattern followed by optional copies
up to the maximum, or by any number of copies if there is none. -/
def unroll (pattern : Pattern) (least : Nat) (most : Option Nat) : Pattern :=
  let copies := List.replicate least pattern
  match most with
  | none => sequence (copies ++ [.repeat pattern .zeroOrMore])
  | some most =>
      sequence (copies ++ (optionalCopies pattern (most - least)).toList)

end Pattern
end ParserGenerator
