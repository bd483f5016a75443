import ParserGenerator.CharacterData
import ParserGenerator.Text.Units

/-!
# States of a lexical automaton

A state sends a unit on by its range if one of its ranges holds the unit, and
by what holds outside the ranges otherwise. Either way the target may depend
on the category of the unit. A state may instead branch on a condition
without reading anything.
-/

namespace ParserGenerator
namespace Lexical

/-- The target of the units of some categories. -/
structure CategoryTransition where
  /-- The categories of the units. -/
  categories : Categories
  /-- The state that follows. -/
  target : Nat
  deriving DecidableEq

/-- Targets by category, with one for the units of all other categories. -/
structure Dispatch where
  /-- The targets that depend on the category. -/
  categories : List CategoryTransition
  /-- The target of the other units. -/
  otherwise : Option Nat
  deriving DecidableEq

namespace Dispatch

/-- No target at all. -/
def nowhere : Dispatch := ⟨[], none⟩

/-- Whether no unit has a target. -/
def isNowhere (dispatch : Dispatch) : Bool :=
  dispatch.categories.isEmpty && dispatch.otherwise.isNone

/-- The target of a unit of the given category. -/
def target (dispatch : Dispatch) (category : Category) : Option Nat :=
  match dispatch.categories.find? (·.categories.contains category) with
  | some transition => some transition.target
  | none => dispatch.otherwise

end Dispatch

/-- The targets of the units of a range. -/
structure RangeTransition where
  /-- The units. -/
  range : CodeRange
  /-- Their targets. -/
  dispatch : Dispatch
  deriving DecidableEq

/-- A branch that reads nothing: if the automaton accepts from `condition` at
the current place, `onTrue` follows, otherwise `onFalse`. -/
structure Branch where
  /-- Where the condition starts. -/
  condition : Nat
  /-- The state that follows if the condition holds. -/
  onTrue : Nat
  /-- The state that follows if it does not hold. -/
  onFalse : Nat
  deriving DecidableEq

/-- A state of a lexical automaton. -/
structure State where
  /-- Targets by range, ascending and disjoint. -/
  ranges : List RangeTransition
  /-- Targets of the units outside the ranges. -/
  outside : Dispatch
  /-- Whether something is accepted here. -/
  isFinal : Bool
  /-- The terminal that is accepted here. -/
  terminal : Option Nat
  /-- The branch taken here, in a state that reads nothing. -/
  branch : Option Branch
  deriving DecidableEq

namespace State

/-- The targets of the units in the range that holds a unit. -/
def dispatch (state : State) (unit : Nat) : Dispatch :=
  match state.ranges.find? (·.range.contains unit) with
  | some transition => transition.dispatch
  | none => state.outside

/-- The state that follows when a unit is read. -/
def next [CharacterData] (state : State) (unit : CodeUnit) : Option Nat :=
  (state.dispatch unit.toNat).target (Category.of unit.toNat)

/-- Whether nothing follows, whatever comes next. -/
def isDeadEnd (state : State) : Bool :=
  state.branch.isNone && state.outside.isNowhere &&
    state.ranges.all (·.dispatch.isNowhere)

end State
end Lexical
end ParserGenerator
