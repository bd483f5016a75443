import ParserGenerator.Definition
import ParserGenerator.Parse.Compiled
import ParserGenerator.Parse.Configuration

/-!
# Events

A record of what happens from the loading of a definition to the end of a
parse, in words.
-/

namespace ParserGenerator
namespace Table

/-- The wording of an action. -/
def Action.display : Action → String
  | .shift state => s!"Shift({state})"
  | .reduce production => s!"Reduce(ProductionId({production}))"
  | .accept => "Accept"

/-- The wording of a decision between a shift and a reduction. -/
def Resolution.display : Resolution → String
  | .shift => "Shift"
  | .reduce => "Reduce"

/-- The wording of an event; a resolver that settles nothing is not
mentioned. -/
def Event.message? (rules : Rules) : Event → Option String
  | .kernels count => some s!"lalr: {count} LR(0) states"
  | .settled passes =>
      some s!"lalr: lookaheads settled after {passes} passes"
  | .shiftAsked state symbol production resolution =>
      some <| s!"state {state}: shift/reduce on " ++
        s!"{rules.grammar.name symbol} between " ++
        s!"{rules.productionName production} and shift resolved as " ++
        resolution.display
  | .coreAsked state symbol _ (some action) =>
      some <| s!"state {state}: core conflict on " ++
        s!"{rules.grammar.name symbol} resolved as {action.display}"
  | .coreAsked _ _ _ none => none
  | .completed states actions =>
      some s!"lalr: {states} states, {actions} actions"

end Table

/-- The wording of the end of loading. -/
def Definition.summary (definition : Definition) : String :=
  let grammar := definition.grammar
  s!"loaded grammar: {grammar.symbols.size} symbols, " ++
    s!"{grammar.productions.size} productions, goal " ++
    definition.goalName

/-- The wording of what an automaton consists of. -/
def Lexical.Automaton.summary (automaton : Lexical.Automaton) : String :=
  s!"lexical automaton: {automaton.terminalCount} terminals, " ++
    s!"{automaton.nodeCount} nfa nodes, {automaton.states.size} states"

namespace Parse

/-- The wording of the end of a compilation. -/
def Compiled.summary (compiled : Compiled) : String :=
  s!"compiled grammar for {compiled.goalName}: " ++
    s!"{compiled.stateCount} parser states, " ++
    s!"{compiled.lexicalStateCount} lexical states"

/-- The record of the compilation of a grammar for a goal. -/
def Compilation.messages (grammar : Grammar) (goal : SymbolId)
    (compilation : Compilation) : List String :=
  compilation.events.filterMap (Table.Event.message? ⟨grammar, goal⟩) ++
    match compilation.result with
    | .error _ => []
    | .ok compiled =>
        [compiled.lexicon.automaton.summary, compiled.summary]

/-- What happens during a parse. -/
inductive Event (Value : Type)
  /-- The window grew to the given capacity. -/
  | grown (capacity : Nat)
  /-- A token other than the end was scanned. -/
  | scanned (token : Token)
  /-- A decision about a token is due. -/
  | considered (frames : List (Frame Value)) (token : Token)
  /-- A decision was made. -/
  | decided (decision : Decision)

namespace Event

variable {Value : Type}

/-- The wording of a decision; a token that is rejected is reported as an
error instead. -/
def decisionMessage? (rules : Table.Rules) : Decision → Option String
  | .shiftMarker target marker =>
      some s!"Shift {target} on {rules.grammar.name marker}"
  | .shift target => some s!"Shift {target}"
  | .reduce production =>
      some s!"Reduce {rules.productionName production}"
  | .accept => some "Accept"
  | .reject => none

/-- The stack with its states, the lowest frame first. -/
def stackMessage (grammar : Grammar) (frames : List (Frame Value)) : String :=
  "<0>  " ++ String.join (frames.reverse.map fun frame =>
    s!"{grammar.name frame.symbol}  <{frame.state}>  ")

/-- The wording of an event. -/
def message? [CharacterData] (rules : Table.Rules) :
    Event Value → Option String
  | .grown capacity => some s!"growing buffer to {capacity} units"
  | .scanned token =>
      some <| s!"scanned SymbolId({token.symbol}) " ++
        s!"{Text.quote token.text} at {token.position}"
  | .considered frames token =>
      some <| stackMessage rules.grammar frames ++ "<-  " ++
        rules.grammar.name token.symbol ++ Text.quote token.text
  | .decided decision => decisionMessage? rules decision

end Event
end Parse
end ParserGenerator
