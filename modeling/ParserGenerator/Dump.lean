import ParserGenerator.Lexical.Automaton
import ParserGenerator.Table

/-!
# Readable listings

Productions, parser states and lexical states as lines that start with a
letter for what they describe.
-/

namespace ParserGenerator
namespace Dump

/-- Lines, each ended by a line feed. -/
def joinLines (content : List String) : String :=
  String.join (content.map (· ++ "\n"))

/-- The productions of a grammar. -/
def productions (grammar : Grammar) : String :=
  joinLines <|
    s!"PS,{grammar.productions.size}" :: "" ::
      grammar.productions.toList.zipIdx.map fun (production, number) =>
        s!"P,{number},{production.name}," ++
          grammar.displayProduction production

/-- A set of symbols between braces. -/
def symbolSet (grammar : Grammar) (symbols : SymbolSet) : String :=
  "\x7b" ++ ", ".intercalate (symbols.map grammar.name) ++ "\x7d"

/-- A kernel item with its lookaheads. -/
def kernelItem (rules : Table.Rules) (entry : Table.LookaheadItem) : String :=
  let names := (rules.body entry.1.production).map rules.grammar.name
  let dotted := names.take entry.1.dot ++ ["."] ++ names.drop entry.1.dot
  rules.headName entry.1.production ++ " -> " ++
    String.join (dotted.map (· ++ " ")) ++ " " ++
    symbolSet rules.grammar entry.2

/-- The wording of an action. -/
def action (rules : Table.Rules) : Table.Action → String
  | .shift state => s!"shift {state}"
  | .reduce production => "reduce " ++ rules.productionName production
  | .accept => "accept"

/-- The lines of a parser state. -/
def parserState (rules : Table.Rules) (number : Nat)
    (state : Table.ParserState) : List String :=
  let grammar := rules.grammar
  (state.kernel.map fun entry => s!"C,{number}," ++ kernelItem rules entry) ++
    (state.actions.map fun (symbol, chosen) =>
      s!"A,{number},{grammar.name symbol}," ++ action rules chosen) ++
    ((state.gotos.filter fun (symbol, _) =>
      grammar.isNonTerminal symbol).map fun (symbol, target) =>
        s!"G,{number},{grammar.name symbol},{target}") ++
    [""]

/-- The states of a parser. -/
def parserStates (grammar : Grammar) (table : Table) : String :=
  joinLines <|
    s!"CS,{table.states.size}" :: "" ::
      table.states.toList.zipIdx.flatMap fun (state, number) =>
        parserState ⟨grammar, table.goal⟩ number state

/-- Transitions by category. -/
def categoryTransitions
    (transitions : List Lexical.CategoryTransition) : String :=
  String.join <| transitions.map fun transition =>
    s!" {transition.categories.display}->{transition.target}"

/-- The line of the units of a range. -/
def rangeTransition (transition : Lexical.RangeTransition) : String :=
  let otherwise := match transition.dispatch.otherwise with
    | some target => s!" ->{target}"
    | none => ""
  "  " ++ transition.range.display ++ otherwise ++
    categoryTransitions transition.dispatch.categories

/-- What a lexical state accepts. -/
def acceptance (grammar : Grammar) (state : Lexical.State) : String :=
  match state.terminal with
  | some index =>
      ",accept " ++
        ((grammar.terminals[index]?.map grammar.name).getD "?")
  | none => if state.isFinal then ",accept" else ""

/-- The lines of a lexical state. -/
def lexicalState (grammar : Grammar) (number : Nat)
    (state : Lexical.State) : List String :=
  let branch := state.branch.toList.map fun branch =>
    s!"  if {branch.condition} then {branch.onTrue} else {branch.onFalse}"
  let categories :=
    if state.outside.categories.isEmpty then
      []
    else
      ["  *" ++ categoryTransitions state.outside.categories]
  let otherwise :=
    state.outside.otherwise.toList.map fun target => s!"  * ->{target}"
  (s!"L,{number}" ++ acceptance grammar state) :: branch ++
    state.ranges.map rangeTransition ++ categories ++ otherwise

/-- The states of a lexical automaton. -/
def lexicalStates (grammar : Grammar) (automaton : Lexical.Automaton) :
    String :=
  joinLines <|
    s!"LS,{automaton.states.size}" :: "" ::
      automaton.states.toList.zipIdx.flatMap fun (state, number) =>
        lexicalState grammar number state

end Dump
end ParserGenerator
