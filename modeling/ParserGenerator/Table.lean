import ParserGenerator.Table.Conflict
import ParserGenerator.Table.Lookaheads

/-!
# Parser tables

The states of a parser for one goal: kernels with lookaheads, transitions on
all symbols, and at most one action on each symbol. A table is built only if
every conflict is decided.
-/

namespace ParserGenerator
namespace Table

/-- A state of a parser. -/
structure ParserState where
  /-- The kernel items in order, each with its lookaheads. -/
  kernel : List LookaheadItem
  /-- The transitions in the order of the symbols. -/
  gotos : List (SymbolId × Nat)
  /-- The actions in the order of the symbols. -/
  actions : List (SymbolId × Action)
  /-- The symbol that every transition to the state crosses. -/
  accessing : Option SymbolId
  deriving DecidableEq

end Table

/-- The table of a parser. -/
structure Table where
  /-- The states; a parser starts in the first one. -/
  states : Array Table.ParserState
  /-- The symbol that is derived. -/
  goal : SymbolId
  /-- The number of the production of the goal. -/
  accept : ProductionId
  deriving DecidableEq

namespace Table

/-- The action in a state on a symbol. -/
def action (table : Table) (state : Nat) (symbol : SymbolId) :
    Option Action :=
  table.states[state]?.bind (·.actions.lookup symbol)

/-- The transition from a state over a symbol. -/
def goto (table : Table) (state : Nat) (symbol : SymbolId) : Option Nat :=
  table.states[state]?.bind (·.gotos.lookup symbol)

/-- The state at the end of the transitions over some symbols. -/
def follow (table : Table) (state : Nat) : List SymbolId → Option Nat
  | [] => some state
  | symbol :: rest =>
      match table.goto state symbol with
      | some target => table.follow target rest
      | none => none

/-- A table, or the reason why there is none, and what happened before. -/
structure Construction where
  /-- What happened, in order. -/
  events : List Event
  /-- The outcome. -/
  result : Except TableError Table

namespace Analysis

/-- The candidates on a symbol among the items of a closure. -/
def candidates (analysis : Analysis) (state : Nat)
    (gotos : List (SymbolId × Nat)) (closure : List LookaheadItem)
    (symbol : SymbolId) : Candidates :=
  let shiftItems := (closure.map (·.1)).filter fun item =>
    analysis.rules.next? item == some symbol &&
      !analysis.rules.grammar.isNonTerminal symbol
  let complete := closure.filter fun entry =>
    (analysis.rules.next? entry.1).isNone && entry.2.contains symbol
  { state, symbol
    shift := if shiftItems.isEmpty then none else gotos.lookup symbol
    reduces := ascending (complete.map (·.1.production))
    shiftItems }

/-- The symbols on which something applies. -/
def actionSymbols (analysis : Analysis) (closure : List LookaheadItem) :
    SymbolSet :=
  ascending <| closure.flatMap fun (item, symbols) =>
    match analysis.rules.next? item with
    | none => symbols
    | some symbol =>
        if analysis.rules.grammar.isNonTerminal symbol then [] else [symbol]

/-- The actions on some symbols, up to the first conflict that remains. -/
def chooseAll (analysis : Analysis) (resolver : Option Resolver)
    (candidates : SymbolId → Candidates) :
    List SymbolId → List Event × Except TableError (List (SymbolId × Action))
  | [] => ([], .ok [])
  | symbol :: rest =>
      let (events, choice) :=
        analysis.rules.choose resolver (candidates symbol)
      match choice with
      | .error error => (events, .error error)
      | .ok action =>
          let (others, result) := analysis.chooseAll resolver candidates rest
          (events ++ others, result.map fun actions =>
            (action.map (symbol, ·)).toList ++ actions)

/-- The symbol before the dot of the first kernel item. -/
def accessing? (analysis : Analysis) (kernel : List Item) :
    Option SymbolId :=
  match kernel with
  | ⟨production, dot + 1⟩ :: _ => (analysis.rules.body production)[dot]?
  | _ => none

/-- The state of a kernel. -/
def parserState (analysis : Analysis) (resolver : Option Resolver)
    (state : Nat) (kernel : List LookaheadItem)
    (gotos : List (SymbolId × Nat)) :
    List Event × Except TableError ParserState :=
  let closure := analysis.closure kernel
  let (events, actions) := analysis.chooseAll resolver
    (analysis.candidates state gotos closure)
    (analysis.actionSymbols closure)
  (events, actions.map fun actions =>
    ⟨kernel, gotos, actions, analysis.accessing? (kernel.map (·.1))⟩)

/-- The states of some kernels, up to the first conflict that remains. -/
def parserStates (analysis : Analysis) (resolver : Option Resolver)
    (state : Nat) :
    List (List LookaheadItem × List (SymbolId × Nat)) →
      List Event × Except TableError (List ParserState)
  | [] => ([], .ok [])
  | (kernel, gotos) :: rest =>
      let (events, built) := analysis.parserState resolver state kernel gotos
      match built with
      | .error error => (events, .error error)
      | .ok first =>
          let (others, result) :=
            analysis.parserStates resolver (state + 1) rest
          (events ++ others, result.map (first :: ·))

/-- The kernels with their lookaheads and transitions. -/
def annotated (graph : KernelGraph) (sets : SlotSets) :
    List (List LookaheadItem × List (SymbolId × Nat)) :=
  ((graph.kernels.zip sets).zip graph.gotos).toList.map
    fun ((kernel, sets), gotos) => (kernel.zip sets.toList, gotos)

end Analysis

/-- The first non-terminal without productions among the goal and the body
symbols. -/
def Rules.unproductive? (rules : Rules) : Option SymbolId :=
  let used := rules.goal ::
    rules.grammar.productions.toList.flatMap Production.body
  used.find? fun symbol =>
    rules.grammar.isNonTerminal symbol &&
      (rules.grammar.productionsOf symbol).isEmpty

/-- Build the table of rules that are in order. -/
def Rules.construct (rules : Rules) (resolver : Option Resolver) :
    Construction :=
  let analysis : Analysis := ⟨rules, FirstSets.ofGrammar rules.grammar⟩
  let graph := rules.kernelGraph
  let lookaheads := analysis.lookaheads graph
  let (events, states) := analysis.parserStates resolver 0
    (Analysis.annotated graph lookaheads.value)
  let before :=
    .kernels graph.kernels.size :: .settled lookaheads.passes :: events
  match states with
  | .error error => ⟨before, .error error⟩
  | .ok states =>
      let actions :=
        states.foldr (fun state total => state.actions.length + total) 0
      ⟨before ++ [.completed states.length actions],
        .ok ⟨states.toArray, rules.goal, rules.accept⟩⟩

/-- Build the table of a grammar for a goal. -/
def construct (grammar : Grammar) (goal : SymbolId)
    (resolver : Option Resolver) : Construction :=
  let rules : Rules := ⟨grammar, goal⟩
  if !grammar.isNonTerminal goal then
    ⟨[], .error (.invalidGoal (grammar.name goal))⟩
  else
    match rules.unproductive? with
    | some symbol => ⟨[], .error (.emptyNonTerminal (grammar.name symbol))⟩
    | none => rules.construct resolver

end Table
end ParserGenerator
