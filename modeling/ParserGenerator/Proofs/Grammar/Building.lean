import ParserGenerator.Proofs.Grammar.Declaring

/-!
# Building a grammar in place

A grammar under construction is changed by calls, of which any may fail.
Whatever calls were made, numbers and names fit each other and everything that
a production refers to is declared. A call that fails leaves the grammar as it
was, and one that succeeds adds one symbol or one production, or changes the
overrides of one production.
-/

namespace ParserGenerator
namespace Grammar

/-- Steps on a grammar that is changed in place. What was changed before a step
fails stays changed. -/
abbrev InPlace (Value : Type) := ExceptT DefinitionError (StateM Grammar) Value

namespace InPlace

variable {Value Other : Type}

/-- What a step gives, and the grammar after it. -/
def on (step : InPlace Value) (grammar : Grammar) :
    Except DefinitionError Value × Grammar :=
  (StateT.run (ExceptT.run step) grammar).run

@[simp] theorem on_get (grammar : Grammar) :
    (get : InPlace Grammar).on grammar = (.ok grammar, grammar) := rfl

/-- What comes after a step is made only if the step succeeds. -/
@[simp] theorem on_bind
    (step : InPlace Value)
    (next : Value → InPlace Other)
    (grammar : Grammar) :
    (step >>= next).on grammar =
      match step.on grammar with
      | (.ok value, after) => (next value).on after
      | (.error error, after) => (.error error, after) := by
  unfold on
  rw [ExceptT.run_bind, StateT.run_bind]
  generalize StateT.run (ExceptT.run step) grammar = outcome
  obtain ⟨value | error, after⟩ := outcome <;> rfl

/-- Refuse a name that a symbol has already. -/
def checkNew (name : String) : InPlace PUnit := do
  if ((← get).symbol? name).isSome then
    throw (.duplicateSymbol name)

/-- Add a symbol after all others. -/
def insertSymbol (name : String) (kind : SymbolKind) : InPlace SymbolId := do
  let symbol := (← get).symbols.size
  modify fun grammar =>
    { grammar with symbols := grammar.symbols.push ⟨name, kind⟩ }
  return symbol

/-- Declare a terminal by its pattern. -/
def createTerminal (name : String) (pattern : Pattern)
    (options : TerminalOptions) : InPlace SymbolId := do
  checkNew name
  if pattern.isNullable then
    throw (.emptyMatch name)
  else
    insertSymbol name (.terminal pattern options)

/-- Declare a terminal by the text of its pattern. -/
def createTerminalText [CharacterData] (name text : String)
    (options : TerminalOptions) : InPlace SymbolId := do
  checkNew name
  match Pattern.parse text with
  | .error error => throw (.pattern name error)
  | .ok pattern => createTerminal name pattern options

/-- Declare a non-terminal. -/
def createNonTerminal (name : String) : InPlace SymbolId := do
  checkNew name
  insertSymbol name .nonTerminal

/-- The number of a symbol that has to be declared. -/
def resolve (name : String) : InPlace SymbolId := do
  match (← get).symbol? name with
  | some symbol => return symbol
  | none => throw (.undeclaredSymbol name)

/-- The numbers of symbols that have to be declared, one after the other. -/
def resolveAll : List String → InPlace (List SymbolId)
  | [] => return []
  | name :: rest => do
      let symbol ← resolve name
      return symbol :: (← resolveAll rest)

/-- Add a production after all others. -/
def addRule (head : SymbolId) (name body : String) : InPlace ProductionId := do
  match (← get).symbols[head]? with
  | none => throw (.undeclaredSymbol s!"#{head}")
  | some symbol =>
      if !symbol.isNonTerminal then
        throw (.notNonTerminal symbol.name)
      else if ((← get).production? name).isSome then
        throw (.duplicateProduction name)
      else
        let symbols ← resolveAll (Text.words body)
        let production := (← get).productions.size
        modify fun grammar => { grammar with
          productions :=
            grammar.productions.push ⟨name, head, symbols, [], [], []⟩ }
        return production

/-- The production of a name, to change its overrides. -/
def reopen (name : String) : InPlace ProductionId := do
  match (← get).production? name with
  | some production => return production
  | none => throw (.unknownProduction name)

/-- Let a shift win over a production on more symbols. -/
def extendShiftOn (production : ProductionId) (names : List String) :
    InPlace ProductionId := do
  let symbols ← resolveAll names
  modify (·.modifyProduction production fun rule =>
    { rule with shiftOn := mergeAscending rule.shiftOn (ascending symbols) })
  return production

/-- Let a production win on more symbols. -/
def extendReduceOn (production : ProductionId) (names : List String) :
    InPlace ProductionId := do
  let symbols ← resolveAll names
  modify (·.modifyProduction production fun rule =>
    { rule with reduceOn := mergeAscending rule.reduceOn (ascending symbols) })
  return production

/-- Forget what may follow a symbol in the body of a production, and set it
anew. -/
def replaceLookaheads (production : ProductionId) (marker : String)
    (names : List String) : InPlace ProductionId := do
  let symbol ← resolve marker
  let symbols ← resolveAll names
  match (← get).productions[production]? with
  | none => return production
  | some rule =>
      if !rule.body.contains symbol then
        throw (.markerNotInBody rule.name marker)
      else
        modify (·.modifyProduction production fun rule =>
          { rule with
            lookaheadOverrides :=
              rule.lookaheadOverrides.filter fun entry => entry.1 != symbol })
        modify (·.modifyProduction production fun rule =>
          { rule with
            lookaheadOverrides :=
              rule.lookaheadOverrides ++ [(symbol, ascending symbols)] })
        return production

end InPlace

/-! ## Calls -/

/-- A call that builds a grammar. -/
inductive Call
  | terminalText (name text : String) (options : TerminalOptions)
  | terminal (name : String) (pattern : Pattern) (options : TerminalOptions)
  | nonTerminal (name : String)
  | rule (head : SymbolId) (name body : String)
  | reopen (name : String)
  | shiftOn (production : ProductionId) (names : List String)
  | reduceOn (production : ProductionId) (names : List String)
  | lookaheads (production : ProductionId) (marker : String)
      (names : List String)

namespace Call

variable [CharacterData]

/-- Make a call. It gives the number of the symbol or the production that it is
about. -/
def perform : Call → InPlace Nat
  | terminalText name text options => .createTerminalText name text options
  | terminal name pattern options => .createTerminal name pattern options
  | nonTerminal name => .createNonTerminal name
  | rule head name body => .addRule head name body
  | reopen name => .reopen name
  | shiftOn production names => .extendShiftOn production names
  | reduceOn production names => .extendReduceOn production names
  | lookaheads production marker names =>
      .replaceLookaheads production marker names

/-- The grammar that a call leads to if it is not refused. -/
def apply (grammar : Grammar) : Call → Except DefinitionError (Grammar × Nat)
  | terminalText name text options =>
      grammar.declareTerminalText name text options
  | terminal name pattern options =>
      grammar.declareTerminal name pattern options
  | nonTerminal name => grammar.declareNonTerminal name
  | rule head name body => grammar.addRule head name body
  | reopen name => (grammar.resolveProduction name).map (grammar, ·)
  | shiftOn production names =>
      (grammar.addShiftOn production names).map (·, production)
  | reduceOn production names =>
      (grammar.addReduceOn production names).map (·, production)
  | lookaheads production marker names =>
      (grammar.overrideLookaheads production marker names).map (·, production)

end Call

namespace InPlace

/-- A step that gives a grammar or an error, as one in place that changes the
grammar only if it succeeds. -/
def settled (grammar : Grammar) :
    Except DefinitionError (Grammar × Nat) →
      Except DefinitionError Nat × Grammar
  | .ok (after, number) => (.ok number, after)
  | .error error => (.error error, grammar)

variable (grammar : Grammar)

@[simp] theorem on_resolve (name : String) :
    (resolve name).on grammar = (grammar.resolve name, grammar) := by
  unfold resolve Grammar.resolve
  rw [on_bind, on_get]
  dsimp only
  cases grammar.symbol? name <;> rfl

@[simp] theorem on_resolveAll (names : List String) :
    (resolveAll names).on grammar = (grammar.resolveAll names, grammar) := by
  induction names with
  | nil => rfl
  | cons name rest inductionHypothesis =>
      unfold resolveAll Grammar.resolveAll
      rw [on_bind, on_resolve]
      cases grammar.resolve name with
      | error error => rfl
      | ok symbol =>
          dsimp only
          rw [on_bind, inductionHypothesis]
          cases grammar.resolveAll rest <;> rfl

theorem on_checkNew (name : String) :
    (checkNew name).on grammar =
      (if (grammar.symbol? name).isSome then
          .error (.duplicateSymbol name)
        else
          .ok ⟨⟩,
        grammar) := by
  unfold checkNew
  rw [on_bind, on_get]
  dsimp only
  split <;> rfl

/-- A symbol is inserted after its name was checked. -/
theorem on_insertSymbol
    {name : String}
    (isNew : ¬ (grammar.symbol? name).isSome = true)
    (kind : SymbolKind) :
    (insertSymbol name kind).on grammar =
      settled grammar (grammar.addSymbol name kind) := by
  unfold addSymbol
  rw [if_neg isNew]
  rfl

theorem on_createTerminal
    (name : String)
    (pattern : Pattern)
    (options : TerminalOptions) :
    (createTerminal name pattern options).on grammar =
      settled grammar (grammar.declareTerminal name pattern options) := by
  unfold createTerminal declareTerminal
  rw [on_bind, on_checkNew]
  by_cases isOld : (grammar.symbol? name).isSome = true
  · rw [if_pos isOld, if_pos isOld]
    rfl
  · rw [if_neg isOld, if_neg isOld]
    dsimp only
    split
    · rfl
    · exact on_insertSymbol grammar isOld _

theorem on_createTerminalText
    [CharacterData]
    (name text : String)
    (options : TerminalOptions) :
    (createTerminalText name text options).on grammar =
      settled grammar (grammar.declareTerminalText name text options) := by
  unfold createTerminalText declareTerminalText
  rw [on_bind, on_checkNew]
  by_cases isOld : (grammar.symbol? name).isSome = true
  · rw [if_pos isOld, if_pos isOld]
    rfl
  · rw [if_neg isOld, if_neg isOld]
    dsimp only
    cases Pattern.parse text with
    | error error => rfl
    | ok pattern => exact on_createTerminal grammar name pattern options

theorem on_createNonTerminal (name : String) :
    (createNonTerminal name).on grammar =
      settled grammar (grammar.declareNonTerminal name) := by
  unfold createNonTerminal declareNonTerminal
  rw [on_bind, on_checkNew]
  by_cases isOld : (grammar.symbol? name).isSome = true
  · rw [if_pos isOld, addSymbol, if_pos isOld]
    rfl
  · rw [if_neg isOld]
    exact on_insertSymbol grammar isOld _

theorem on_addRule (head : SymbolId) (name body : String) :
    (addRule head name body).on grammar =
      settled grammar (grammar.addRule head name body) := by
  unfold addRule Grammar.addRule
  rw [on_bind, on_get]
  dsimp only
  cases grammar.symbols[head]? with
  | none => rfl
  | some symbol =>
      dsimp only
      split
      · rfl
      · rw [on_bind, on_get]
        dsimp only
        split
        · rfl
        · rw [on_bind, on_resolveAll]
          cases grammar.resolveAll (Text.words body) <;> rfl

theorem on_reopen (name : String) :
    (reopen name).on grammar =
      settled grammar
        ((grammar.resolveProduction name).map (grammar, ·)) := by
  unfold reopen resolveProduction
  rw [on_bind, on_get]
  dsimp only
  cases grammar.production? name <;> rfl

theorem on_extendShiftOn (production : ProductionId) (names : List String) :
    (extendShiftOn production names).on grammar =
      settled grammar
        ((grammar.addShiftOn production names).map (·, production)) := by
  unfold extendShiftOn addShiftOn
  rw [on_bind, on_resolveAll]
  cases grammar.resolveAll names <;> rfl

theorem on_extendReduceOn (production : ProductionId) (names : List String) :
    (extendReduceOn production names).on grammar =
      settled grammar
        ((grammar.addReduceOn production names).map (·, production)) := by
  unfold extendReduceOn addReduceOn
  rw [on_bind, on_resolveAll]
  cases grammar.resolveAll names <;> rfl

/-- Two changes of a production are one. -/
theorem modifyProduction_modifyProduction
    (production : ProductionId)
    (first second : Production → Production) :
    (grammar.modifyProduction production first).modifyProduction production
        second =
      grammar.modifyProduction production (second ∘ first) := by
  unfold modifyProduction
  congr 1
  refine Array.ext (by simp) fun index _ _ => ?_
  simp only [Array.getElem_modify]
  split <;> rfl

/-- A change of a production depends on what it makes of this one only. -/
theorem modifyProduction_congr
    {production : ProductionId}
    {rule : Production}
    {first second : Production → Production}
    (found : grammar.productions[production]? = some rule)
    (same : first rule = second rule) :
    grammar.modifyProduction production first =
      grammar.modifyProduction production second := by
  unfold modifyProduction
  congr 1
  refine Array.ext (by simp) fun index inside _ => ?_
  simp only [Array.getElem_modify]
  split
  · next isProduction =>
      subst isProduction
      rw [Array.size_modify] at inside
      have isRule : grammar.productions[production] = rule :=
        (Array.getElem?_eq_some_iff.mp found).2
      rw [isRule, same]
  · rfl

theorem on_replaceLookaheads
    (production : ProductionId)
    (marker : String)
    (names : List String) :
    (replaceLookaheads production marker names).on grammar =
      settled grammar
        ((grammar.overrideLookaheads production marker names).map
          (·, production)) := by
  unfold replaceLookaheads overrideLookaheads
  rw [on_bind, on_resolve]
  cases grammar.resolve marker with
  | error error => rfl
  | ok symbol =>
      dsimp only
      rw [on_bind, on_resolveAll]
      cases grammar.resolveAll names with
      | error error => rfl
      | ok symbols =>
          dsimp only
          rw [on_bind, on_get]
          dsimp only [bind, Except.bind]
          cases found : grammar.productions[production]? with
          | none => rfl
          | some rule =>
              dsimp only
              split
              · rfl
              · refine congrArg (Prod.mk (Except.ok production)) ?_
                exact (modifyProduction_modifyProduction grammar production _
                  _).trans (modifyProduction_congr grammar found rfl)

/-- A call in place is the call that gives a grammar or an error. -/
theorem on_perform [CharacterData] (call : Call) :
    call.perform.on grammar = settled grammar (call.apply grammar) := by
  cases call with
  | terminalText name text options =>
      exact on_createTerminalText grammar name text options
  | terminal name pattern options =>
      exact on_createTerminal grammar name pattern options
  | nonTerminal name => exact on_createNonTerminal grammar name
  | rule head name body => exact on_addRule grammar head name body
  | reopen name => exact on_reopen grammar name
  | shiftOn production names =>
      exact on_extendShiftOn grammar production names
  | reduceOn production names =>
      exact on_extendReduceOn grammar production names
  | lookaheads production marker names =>
      exact on_replaceLookaheads grammar production marker names

end InPlace
end Grammar
end ParserGenerator
