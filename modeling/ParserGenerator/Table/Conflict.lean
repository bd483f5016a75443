import ParserGenerator.Table.Rules
import ParserGenerator.Text.Quoted

/-!
# Conflicts between actions

On each symbol a state may shift, or reduce one or more productions. If more
than one of these compete, the overrides of the productions decide first and
a resolver, if there is one, is asked about what they leave open.
-/

namespace ParserGenerator
namespace Table

/-- What a parser does in a state on a symbol. -/
inductive Action
  | shift (state : Nat)
  | reduce (production : ProductionId)
  | accept
  deriving DecidableEq

/-- The decision between a shift and a reduction. -/
inductive Resolution
  | shift
  | reduce
  deriving DecidableEq

/-- A policy for conflicts that overrides leave open. -/
structure Resolver where
  /-- Decides between a shift on a symbol and reducing a production. -/
  onShift : Grammar → SymbolId → ProductionId → Resolution
  /-- Chooses the items to keep among several that compete on a symbol, or
  gives up. -/
  onCore : Grammar → SymbolId → List Item → Option (List Item)

/-- The policy that shifts and gives up on everything else. -/
def Resolver.shifting : Resolver := ⟨fun _ _ _ => .shift, fun _ _ _ => none⟩

/-- The policy that compares how tightly symbols bind: shift if the next symbol
binds more tightly than the first symbol of the production that binds at all,
or as tightly and to the right. -/
def Resolver.byLevel (level : String → Nat) (toTheRight : String → Bool)
    (onCore : Grammar → SymbolId → List Item → Option (List Item)) :
    Resolver where
  onShift grammar symbol production :=
    let body :=
      (grammar.productions[production]?.map Production.body).getD []
    let levels := body.map fun symbol => level (grammar.name symbol)
    let own := (levels.find? (· != 0)).getD 0
    let next := level (grammar.name symbol)
    if own < next || (own == next && toTheRight (grammar.name symbol)) then
      .shift
    else
      .reduce
  onCore := onCore

/-- A conflict that remains. -/
structure Conflict where
  /-- The state in which it arises. -/
  state : Nat
  /-- The name of the symbol on which it arises. -/
  symbol : String
  /-- The names of the productions that take part. -/
  productions : List String
  deriving DecidableEq

/-- Why there is no table. -/
inductive TableError
  | shiftReduce (conflict : Conflict)
  | reduceReduce (conflict : Conflict)
  | coreConflict (conflict : Conflict)
  | invalidGoal (name : String)
  | emptyNonTerminal (name : String)
  deriving DecidableEq

namespace TableError

/-- The conflict behind an error. -/
def conflict? : TableError → Option Conflict
  | shiftReduce conflict => some conflict
  | reduceReduce conflict => some conflict
  | coreConflict conflict => some conflict
  | invalidGoal _ => none
  | emptyNonTerminal _ => none

/-- The symbol on which a conflict arises. -/
def symbol? (error : TableError) : Option String :=
  error.conflict?.map Conflict.symbol

/-- The productions that take part in a conflict. -/
def productions (error : TableError) : List String :=
  (error.conflict?.map Conflict.productions).getD []

/-- The wording of an error. -/
def message [CharacterData] : TableError → String
  | shiftReduce ⟨state, symbol, productions⟩ =>
      s!"unresolved shift/reduce conflict on {Text.quote symbol} in state " ++
        s!"{state}: " ++ ", ".intercalate productions
  | reduceReduce ⟨state, symbol, productions⟩ =>
      s!"reduce/reduce conflict on {Text.quote symbol} in state {state}: " ++
        ", ".intercalate productions
  | coreConflict ⟨state, symbol, productions⟩ =>
      s!"core conflict on {Text.quote symbol} in state {state} left " ++
        "unresolved: " ++ ", ".intercalate productions
  | invalidGoal name => s!"goal symbol {Text.quote name} is not a non-terminal"
  | emptyNonTerminal name =>
      s!"non-terminal {Text.quote name} has no productions"

end TableError

/-- What happened while a table was built, in order. -/
inductive Event
  /-- The number of kernels. -/
  | kernels (count : Nat)
  /-- The number of passes until the lookaheads were settled. -/
  | settled (passes : Nat)
  /-- A resolver decided between a shift and a reduction. -/
  | shiftAsked (state : Nat) (symbol : SymbolId) (production : ProductionId)
      (resolution : Resolution)
  /-- A resolver was asked which items to keep; the action that they denote,
  if they denote one. -/
  | coreAsked (state : Nat) (symbol : SymbolId) (items : List Item)
      (action : Option Action)
  /-- The number of states and of actions. -/
  | completed (states actions : Nat)
  deriving DecidableEq

/-- All that competes on a symbol in a state. -/
structure Candidates where
  /-- The state. -/
  state : Nat
  /-- The symbol. -/
  symbol : SymbolId
  /-- The state that a shift leads to. -/
  shift : Option Nat
  /-- The productions that may be reduced, ascending. -/
  reduces : List ProductionId
  /-- The items that a shift advances. -/
  shiftItems : List Item

/-- The names in a list without repetitions, in order of first occurrence. -/
def distinct (names : List String) : List String :=
  names.foldl (fun found name =>
    if found.contains name then found else found ++ [name]) []

/-- A choice of action: what the resolver was asked, and the action. -/
abbrev Choice := List Event × Except TableError (Option Action)

namespace Rules

/-- The action that reduces a production. -/
def reduceAction (rules : Rules) (production : ProductionId) : Action :=
  if production = rules.accept then .accept else .reduce production

/-- Whether a shift wins over a production on a symbol. -/
def prefersShift (rules : Rules) (symbol : SymbolId)
    (production : ProductionId) : Bool :=
  rules.grammar.productions[production]?.any (·.shiftOn.contains symbol)

/-- Whether a production wins on a symbol. -/
def prefersReduce (rules : Rules) (symbol : SymbolId)
    (production : ProductionId) : Bool :=
  rules.grammar.productions[production]?.any (·.reduceOn.contains symbol)

/-- The conflict between candidates. -/
def conflict (rules : Rules) (candidates : Candidates)
    (productions : List ProductionId) : Conflict :=
  ⟨candidates.state, rules.grammar.name candidates.symbol,
    productions.map rules.productionName⟩

/-- The conflict with each production named once. -/
def distinctConflict (rules : Rules) (candidates : Candidates)
    (productions : List ProductionId) : Conflict :=
  ⟨candidates.state, rules.grammar.name candidates.symbol,
    distinct (productions.map rules.productionName)⟩

/-- The choice between a shift and one reduction. -/
def chooseShift (rules : Rules) (resolver : Option Resolver)
    (candidates : Candidates) (target : Nat) (production : ProductionId) :
    Choice :=
  let symbol := candidates.symbol
  if rules.prefersShift symbol production then
    ([], .ok (some (.shift target)))
  else if rules.prefersReduce symbol production then
    ([], .ok (some (rules.reduceAction production)))
  else
    let unresolved : TableError := .shiftReduce <|
      rules.distinctConflict candidates
        (candidates.reduces ++ candidates.shiftItems.map Item.production)
    match resolver with
    | none => ([], .error unresolved)
    | some resolver =>
        if production = rules.accept then
          ([], .error unresolved)
        else
          let resolution := resolver.onShift rules.grammar symbol production
          ([.shiftAsked candidates.state symbol production resolution],
            .ok <| some <| match resolution with
              | .shift => .shift target
              | .reduce => rules.reduceAction production)

/-- The items of several reductions and of the shift, if there is one. -/
def competing (rules : Rules) (candidates : Candidates) : List Item :=
  (candidates.reduces.map fun production =>
    ⟨production, (rules.body production).length⟩) ++ candidates.shiftItems

/-- The action that the items kept by a resolver denote. -/
def keptAction? (rules : Rules) (candidates : Candidates)
    (items kept : List Item) : Option Action :=
  if kept.isEmpty || !kept.all items.contains then
    none
  else
    match kept.filter rules.isComplete, candidates.shift with
    | [], some target => some (.shift target)
    | [item], _ =>
        if kept.length = 1 then
          some (rules.reduceAction item.production)
        else
          none
    | _, _ => none

/-- The choice that a resolver makes among several reductions and a shift. -/
def chooseCore (rules : Rules) (resolver : Option Resolver)
    (candidates : Candidates) : Choice :=
  let items := rules.competing candidates
  let unresolved : TableError :=
    .reduceReduce (rules.distinctConflict candidates candidates.reduces)
  match resolver with
  | none => ([], .error unresolved)
  | some resolver =>
      let asked := Event.coreAsked candidates.state candidates.symbol items
      match resolver.onCore rules.grammar candidates.symbol items with
      | none => ([asked none], .error unresolved)
      | some kept =>
          match rules.keptAction? candidates items kept with
          | some action => ([asked (some action)], .ok (some action))
          | none =>
              ([asked none], .error <| .coreConflict <|
                rules.conflict candidates (kept.map Item.production))

/-- The choice among several reductions and possibly a shift. -/
def chooseReduce (rules : Rules) (resolver : Option Resolver)
    (candidates : Candidates) : Choice :=
  let symbol := candidates.symbol
  match candidates.reduces.filter (rules.prefersReduce symbol) with
  | [production] => ([], .ok (some (rules.reduceAction production)))
  | _ =>
      match candidates.shift with
      | some target =>
          if candidates.reduces.all (rules.prefersShift symbol) then
            ([], .ok (some (.shift target)))
          else
            rules.chooseCore resolver candidates
      | none => rules.chooseCore resolver candidates

/-- The action on a symbol, if any applies. -/
def choose (rules : Rules) (resolver : Option Resolver)
    (candidates : Candidates) : Choice :=
  match candidates.reduces, candidates.shift with
  | [], shift => ([], .ok (shift.map .shift))
  | [production], none => ([], .ok (some (rules.reduceAction production)))
  | [production], some target =>
      rules.chooseShift resolver candidates target production
  | _, _ => rules.chooseReduce resolver candidates

end Rules
end Table
end ParserGenerator
