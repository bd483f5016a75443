import ParserGenerator.Definition.Statement

/-!
# Grammar definitions

A definition has a section of terminals and a section of productions, which a
line with `%%` divides. Loading it gives a grammar and a goal: the symbol of
the last start directive, or the head of the first production.
-/

namespace ParserGenerator

/-- A grammar with its goal. -/
structure Definition where
  /-- The grammar. -/
  grammar : Grammar
  /-- The symbol to be derived. -/
  goal : SymbolId

namespace Definition

/-- The name of the goal. -/
def goalName (definition : Definition) : String :=
  definition.grammar.name definition.goal

/-- The lines of the two sections and the number of the first line of the
second one. `number` is the number of the first line given. -/
def splitSections (number : Nat) :
    List (List Char) →
      Except LoadError (List (List Char) × List (List Char) × Nat)
  | [] => .error .missingSeparator
  | line :: rest =>
      if Text.trimmed line = ['%', '%'] then
        .ok ([], rest, number + 1)
      else do
        let (terminals, productions, start) ←
          splitSections (number + 1) rest
        return (line :: terminals, productions, start)

/-- Declare the terminals of the terminal section. -/
def declareTerminals [CharacterData] (grammar : Grammar) :
    List TerminalLine → Except LoadError Grammar
  | [] => .ok grammar
  | line :: rest =>
      match grammar.declareTerminalText line.name line.pattern
          line.options with
      | .error error => .error (.terminal line.line error)
      | .ok (grammar, _) => declareTerminals grammar rest

/-- The heads of the productions. -/
def heads (statements : List Statement) : List String :=
  statements.filterMap fun
    | .production _ head _ => some head
    | _ => none

/-- The non-terminals in the bodies of the productions. -/
def bodyNonTerminals (statements : List Statement) : List String :=
  statements.flatMap fun
    | .production _ _ body =>
        (body.filter (·.isNonTerminal)).map (·.name)
    | _ => []

/-- Declare non-terminals. -/
def declareNonTerminals (grammar : Grammar) :
    List String → Except LoadError Grammar
  | [] => .ok grammar
  | name :: rest =>
      match grammar.declareNonTerminal name with
      | .error error => .error (.symbol error)
      | .ok (grammar, _) => declareNonTerminals grammar rest

/-- A grammar while productions are added, with the goals named so far. -/
structure Draft where
  /-- The grammar. -/
  grammar : Grammar
  /-- The symbol of the last start directive. -/
  start : Option SymbolId
  /-- The head of the first production. -/
  firstHead : Option SymbolId

/-- The name of a production: its head with its label or, without one, its
number among the productions of the head. -/
def ruleName (grammar : Grammar) (head : String) (symbol : SymbolId) :
    Option String → String
  | some label => s!"{head}:{label}"
  | none => s!"{head}:{(grammar.productionsOf symbol).length + 1}"

/-- Add the production or note the goal of a statement. -/
def addStatement (draft : Draft) : Statement → Except LoadError Draft
  | .production label head body =>
      match draft.grammar.symbol? head with
      | none => .error (.symbol (.undeclaredSymbol head))
      | some symbol =>
          let name := ruleName draft.grammar head symbol label
          let words := " ".intercalate (body.map (·.name))
          match draft.grammar.addRule symbol name words with
          | .error error => .error (.production name error)
          | .ok (grammar, _) =>
              .ok { draft with
                grammar
                firstHead := draft.firstHead <|> some symbol }
  | .start head =>
      match draft.grammar.symbol? head with
      | none => .error (.unknownStart head)
      | some symbol => .ok { draft with start := some symbol }
  | _ => .ok draft

/-- Apply the overrides of a statement. -/
def addOverride (grammar : Grammar) :
    Statement → Except LoadError Grammar
  | .shiftOn name symbols =>
      match grammar.resolveProduction name with
      | .error error => .error (.symbol error)
      | .ok production =>
          match grammar.addShiftOn production symbols with
          | .error error => .error (.shiftOn name error)
          | .ok grammar => .ok grammar
  | .reduceOn name symbols =>
      match grammar.resolveProduction name with
      | .error error => .error (.symbol error)
      | .ok production =>
          match grammar.addReduceOn production symbols with
          | .error error => .error (.reduceOn name error)
          | .ok grammar => .ok grammar
  | _ => .ok grammar

/-- The grammar and the goal that the two sections declare. -/
def assemble [CharacterData] (found : TerminalSection)
    (statements : List Statement) : Except LoadError Definition := do
  let grammar ←
    declareTerminals (Grammar.empty found.anyCase) found.terminals
  let grammar ← declareNonTerminals grammar
    (heads statements ++ bodyNonTerminals statements).eraseDups
  let draft ← statements.foldlM addStatement ⟨grammar, none, none⟩
  let grammar ← statements.foldlM addOverride draft.grammar
  match draft.start <|> draft.firstHead with
  | some goal => return ⟨grammar, goal⟩
  | none => throw .noProductions

/-- Load the text of a definition. -/
def load [CharacterData] (text : String) : Except LoadError Definition := do
  let (terminals, productions, start) ← splitSections 1 (Text.lines text)
  let found ← readTerminals terminals
  let tokens ← tokenizeLines start productions
  assemble found (← statements tokens)

end Definition
end ParserGenerator
