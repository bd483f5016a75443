import ParserGenerator.Grammar
import ParserGenerator.Pattern.Reader
import ParserGenerator.Text.Blank

/-!
# Declaring symbols and productions

Each step extends a grammar by one symbol or one production, or changes the
overrides of one production. A step that is refused says why. Bodies may
refer only to symbols declared before.
-/

namespace ParserGenerator

/-- Why a step of the construction of a grammar is refused. -/
inductive DefinitionError
  | duplicateSymbol (name : String)
  | duplicateProduction (name : String)
  | undeclaredSymbol (name : String)
  | notNonTerminal (name : String)
  | unknownProduction (name : String)
  | markerNotInBody (production symbol : String)
  | emptyMatch (terminal : String)
  | pattern (terminal : String) (error : PatternError)
  deriving DecidableEq

/-- The wording of a refusal. -/
def DefinitionError.message [CharacterData] : DefinitionError → String
  | duplicateSymbol name => s!"symbol {Text.quote name} is already declared"
  | duplicateProduction name =>
      s!"production {Text.quote name} is already declared"
  | undeclaredSymbol name => s!"symbol {Text.quote name} is not declared"
  | notNonTerminal name => s!"symbol {Text.quote name} is not a non-terminal"
  | unknownProduction name =>
      s!"production {Text.quote name} is not declared"
  | markerNotInBody production symbol =>
      s!"symbol {Text.quote symbol} does not occur in the body of " ++
        Text.quote production
  | emptyMatch terminal =>
      s!"terminal {Text.quote terminal} matches the empty string"
  | pattern terminal error =>
      s!"terminal {Text.quote terminal}: " ++ error.message

namespace Grammar

/-- Add a symbol with a new name. -/
def addSymbol (grammar : Grammar) (name : String) (kind : SymbolKind) :
    Except DefinitionError (Grammar × SymbolId) :=
  if (grammar.symbol? name).isSome then
    .error (.duplicateSymbol name)
  else
    .ok ({ grammar with symbols := grammar.symbols.push ⟨name, kind⟩ },
      grammar.symbols.size)

/-- Declare a terminal by its pattern, which must not be nullable. -/
def declareTerminal (grammar : Grammar) (name : String) (pattern : Pattern)
    (options : TerminalOptions) :
    Except DefinitionError (Grammar × SymbolId) :=
  if (grammar.symbol? name).isSome then
    .error (.duplicateSymbol name)
  else if pattern.isNullable then
    .error (.emptyMatch name)
  else
    grammar.addSymbol name (.terminal pattern options)

/-- Declare a terminal by the text of its pattern. -/
def declareTerminalText [CharacterData] (grammar : Grammar) (name : String)
    (text : String) (options : TerminalOptions) :
    Except DefinitionError (Grammar × SymbolId) :=
  if (grammar.symbol? name).isSome then
    .error (.duplicateSymbol name)
  else
    match Pattern.parse text with
    | .error error => .error (.pattern name error)
    | .ok pattern => grammar.declareTerminal name pattern options

/-- Declare a non-terminal. -/
def declareNonTerminal (grammar : Grammar) (name : String) :
    Except DefinitionError (Grammar × SymbolId) :=
  grammar.addSymbol name .nonTerminal

/-- The number of a symbol that has to be declared. -/
def resolve (grammar : Grammar) (name : String) :
    Except DefinitionError SymbolId :=
  match grammar.symbol? name with
  | some symbol => .ok symbol
  | none => .error (.undeclaredSymbol name)

/-- The numbers of symbols that have to be declared. -/
def resolveAll (grammar : Grammar) :
    List String → Except DefinitionError (List SymbolId)
  | [] => .ok []
  | name :: rest => do
      let symbol ← grammar.resolve name
      return symbol :: (← grammar.resolveAll rest)

/-- Add a production whose body is given by the names of its symbols. -/
def addRule (grammar : Grammar) (head : SymbolId) (name body : String) :
    Except DefinitionError (Grammar × ProductionId) :=
  match grammar.symbols[head]? with
  | none => .error (.undeclaredSymbol s!"#{head}")
  | some symbol =>
      if !symbol.isNonTerminal then
        .error (.notNonTerminal symbol.name)
      else if (grammar.production? name).isSome then
        .error (.duplicateProduction name)
      else do
        let body ← grammar.resolveAll (Text.words body)
        return ({ grammar with
          productions :=
            grammar.productions.push ⟨name, head, body, [], [], []⟩ },
          grammar.productions.size)

/-- The number of a production that has to be declared. -/
def resolveProduction (grammar : Grammar) (name : String) :
    Except DefinitionError ProductionId :=
  match grammar.production? name with
  | some production => .ok production
  | none => .error (.unknownProduction name)

/-- Change one production. -/
def modifyProduction (grammar : Grammar) (production : ProductionId)
    (change : Production → Production) : Grammar :=
  { grammar with
    productions := grammar.productions.modify production change }

/-- Let a shift win over a production on the named symbols. -/
def addShiftOn (grammar : Grammar) (production : ProductionId)
    (names : List String) : Except DefinitionError Grammar := do
  let symbols ← grammar.resolveAll names
  return grammar.modifyProduction production fun rule =>
    { rule with shiftOn := mergeAscending rule.shiftOn (ascending symbols) }

/-- Let a production win on the named symbols. -/
def addReduceOn (grammar : Grammar) (production : ProductionId)
    (names : List String) : Except DefinitionError Grammar := do
  let symbols ← grammar.resolveAll names
  return grammar.modifyProduction production fun rule =>
    { rule with reduceOn := mergeAscending rule.reduceOn (ascending symbols) }

/-- Set which symbols may follow `marker` in the body of a production. -/
def overrideLookaheads (grammar : Grammar) (production : ProductionId)
    (marker : String) (names : List String) :
    Except DefinitionError Grammar := do
  let symbol ← grammar.resolve marker
  let symbols ← grammar.resolveAll names
  match grammar.productions[production]? with
  | none => return grammar
  | some rule =>
      if !rule.body.contains symbol then
        throw (.markerNotInBody rule.name marker)
      else
        let others :=
          rule.lookaheadOverrides.filter fun entry => entry.1 != symbol
        return grammar.modifyProduction production fun rule =>
          { rule with
            lookaheadOverrides := others ++ [(symbol, ascending symbols)] }

/-- Make changes one after another up to the first that is refused; the
changes before it stay. -/
def applyChanges (grammar : Grammar) :
    List (Grammar → Except DefinitionError Grammar) →
      Grammar × Except DefinitionError Unit
  | [] => (grammar, .ok ())
  | change :: rest =>
      match change grammar with
      | .ok changed => changed.applyChanges rest
      | .error error => (grammar, .error error)

end Grammar
end ParserGenerator
