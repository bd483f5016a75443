/-!
# Ascending lists

Lists in order, and finite sets of numbers as ascending lists without
repetitions.
-/

namespace ParserGenerator

/-- Put a value before the first one that it does not exceed. -/
def insertOrdered {Value : Type} (le : Value → Value → Bool) (value : Value) :
    List Value → List Value
  | [] => [value]
  | next :: rest =>
      if le value next then
        value :: next :: rest
      else
        next :: insertOrdered le value rest

/-- Values in order, equal ones in the order in which they were given. -/
def sortBy {Value : Type} (le : Value → Value → Bool) (values : List Value) :
    List Value :=
  values.foldr (insertOrdered le) []

/-- Drop equal neighbours. -/
def dropRepeats : List Nat → List Nat
  | [] => []
  | [value] => [value]
  | value :: next :: rest =>
      if value = next then
        dropRepeats (next :: rest)
      else
        value :: dropRepeats (next :: rest)

/-- Numbers in ascending order without repetitions. -/
def ascending (values : List Nat) : List Nat :=
  dropRepeats (sortBy (· ≤ ·) values)

/-- The members of two ascending lists. -/
def mergeAscending (left right : List Nat) : List Nat :=
  dropRepeats (left.foldr (insertOrdered (· ≤ ·)) right)

end ParserGenerator
