import ParserGenerator.Lexical.Subset

/-!
# Lexical automata

All terminals of a grammar compiled into one deterministic automaton. Among
the terminals that match the longest text the one declared first wins. On a
window of a longer input the answer may be that more input is needed.
-/

namespace ParserGenerator
namespace Lexical

/-- The pattern of a terminal. -/
structure Terminal where
  /-- What the terminal matches. -/
  pattern : Pattern
  /-- Whether the shortest match is taken instead of the longest. -/
  isLazy : Bool

/-- A deterministic automaton for several terminals. -/
structure Automaton where
  /-- The states; the automaton starts in the first one. -/
  states : Array State
  /-- The number of terminals. -/
  terminalCount : Nat
  /-- The number of nodes it was built from. -/
  nodeCount : Nat

/-- The answer to a search for a match. -/
inductive Match
  /-- A terminal matches the given number of units. -/
  | found (terminal length : Nat)
  /-- No terminal matches. -/
  | noMatch
  /-- The window ended while a longer match was possible. -/
  | needMore
  deriving DecidableEq

/-- How a walk through the automaton ends. -/
inductive Walk
  /-- The last accepting state met, with its terminal and distance. -/
  | stopped (last : Option (Option Nat × Nat))
  /-- The window ended while the walk could go on. -/
  | needMore

/-- A walk that goes on after one unit, from a state that accepts as `here`
says. -/
def Walk.afterUnit (here : Option (Option Nat × Nat)) : Walk → Walk
  | needMore => needMore
  | stopped (some (terminal, distance)) =>
      stopped (some (terminal, distance + 1))
  | stopped none => stopped here

namespace Automaton

/-- The automaton of some terminals. -/
def build [CharacterData] (terminals : List Terminal) (anyCase : Bool) :
    Automaton :=
  let nfa := Nfa.ofPatterns anyCase (terminals.map Terminal.pattern)
  let flags := (terminals.map Terminal.isLazy).toArray
  { states := determinize nfa fun index => flags[index]?.getD false
    terminalCount := terminals.length
    nodeCount := nfa.nodes.size }

/-- The state with the given number. -/
def state (automaton : Automaton) (number : Nat) : State :=
  automaton.states[number]?.getD
    ⟨[], Dispatch.nowhere, false, none, none⟩

/-- What comes next at a place: the unit there, and the walk from a state
after it. -/
abbrev Ahead := Option (CodeUnit × ((first : Bool) → Nat → Walk))

variable [CharacterData]

/-- Walk on from a state that reads. With `first` set the walk stops at the
first accepting state. -/
def read (state : State) (atEnd first : Bool) (ahead : Ahead) : Walk :=
  let here := if state.isFinal then some (state.terminal, 0) else none
  if first && state.isFinal then
    .stopped here
  else
    match ahead with
    | none =>
        if !atEnd && !state.isDeadEnd then .needMore else .stopped here
    | some (unit, walk) =>
        match state.next unit with
        | some target => (walk first target).afterUnit here
        | none => .stopped here

/-- Walk from a state, deciding its branches first. The fuel bounds the
branches taken at one place; it is the number of states. -/
def walkHere (automaton : Automaton) (atEnd : Bool) (ahead : Ahead) :
    (fuel : Nat) → (first : Bool) → Nat → Walk
  | 0, _, _ => .stopped none
  | fuel + 1, first, number =>
      let state := automaton.state number
      match state.branch with
      | none => read state atEnd first ahead
      | some branch =>
          match automaton.walkHere atEnd ahead fuel true branch.condition with
          | .needMore => .needMore
          | .stopped (some _) =>
              automaton.walkHere atEnd ahead fuel first branch.onTrue
          | .stopped none =>
              automaton.walkHere atEnd ahead fuel first branch.onFalse

/-- Walk from a state over the input. -/
def walk (automaton : Automaton) (atEnd : Bool) :
    List CodeUnit → (first : Bool) → Nat → Walk
  | [] => automaton.walkHere atEnd none (automaton.states.size + 1)
  | unit :: rest =>
      automaton.walkHere atEnd (some (unit, automaton.walk atEnd rest))
        (automaton.states.size + 1)

/-- The states before the first unit of the input and after each of its units,
as long as there is a transition; branches are not followed. -/
def statesAlong (automaton : Automaton) :
    Option Nat → List CodeUnit → List (Option Nat)
  | current, [] => [current]
  | current, unit :: rest =>
      current :: automaton.statesAlong
        (current.bind fun number => (automaton.state number).next unit) rest

/-- The longest match at the start of the input, or the shortest one for lazy
terminals. Unless the input ends here it is a window of a longer one. -/
def longestMatch (automaton : Automaton) (input : List CodeUnit)
    (atEnd : Bool) : Match :=
  match automaton.walk atEnd input false 0 with
  | .needMore => .needMore
  | .stopped (some (some terminal, length)) => .found terminal length
  | .stopped _ => .noMatch

end Automaton
end Lexical
end ParserGenerator
