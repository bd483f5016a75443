import ParserGenerator.Grammar

/-!
# Rules with a goal

The productions of a grammar together with a production of the goal, which
comes after all others. An item is a production with a place in its body.
-/

namespace ParserGenerator
namespace Table

/-- A production with a dot in its body. -/
structure Item where
  /-- The production. -/
  production : ProductionId
  /-- The number of body symbols before the dot. -/
  dot : Nat
  deriving DecidableEq

namespace Item

/-- Items are ordered by production and then by the place of the dot. -/
def le (left right : Item) : Bool :=
  left.production < right.production ||
    (left.production == right.production && left.dot ≤ right.dot)

/-- The item with the dot moved over one symbol. -/
def advance (item : Item) : Item := ⟨item.production, item.dot + 1⟩

/-- Items in order. -/
def sort (items : List Item) : List Item := sortBy le items

end Item

/-- A grammar with a goal. -/
structure Rules where
  /-- The grammar. -/
  grammar : Grammar
  /-- The symbol to be derived. -/
  goal : SymbolId

namespace Rules

/-- The number of the production of the goal. -/
def accept (rules : Rules) : ProductionId := rules.grammar.productions.size

/-- The body of a production. -/
def body (rules : Rules) (production : ProductionId) : List SymbolId :=
  if production = rules.accept then
    [rules.goal]
  else
    (rules.grammar.productions[production]?.map Production.body).getD []

/-- The name of a production. -/
def productionName (rules : Rules) (production : ProductionId) : String :=
  if production = rules.accept then
    "$accept"
  else
    (rules.grammar.productions[production]?.map Production.name).getD "?"

/-- The name of the head of a production. -/
def headName (rules : Rules) (production : ProductionId) : String :=
  match rules.grammar.productions[production]? with
  | some rule => rules.grammar.name rule.head
  | none => "$accept"

/-- The head of a production of the grammar. -/
def head? (rules : Rules) (production : ProductionId) : Option SymbolId :=
  rules.grammar.productions[production]?.map Production.head

/-- The symbol after the dot. -/
def next? (rules : Rules) (item : Item) : Option SymbolId :=
  (rules.body item.production)[item.dot]?

/-- Whether the dot is at the end. -/
def isComplete (rules : Rules) (item : Item) : Bool :=
  item.dot == (rules.body item.production).length

/-- The productions that an item calls for: those of the symbol after its
dot. -/
def predicted (rules : Rules) (item : Item) : List ProductionId :=
  match rules.next? item with
  | some symbol =>
      if rules.grammar.isNonTerminal symbol then
        rules.grammar.productionsOf symbol
      else
        []
  | none => []

end Rules
end Table
end ParserGenerator
