import ParserGenerator.Proofs.Grammar.Building

/-!
# Records that carry their numbers

A grammar may keep its symbols and productions under their names, in the order
in which the names came first, each with the number that it was given. Then
nothing says that a number is a place: it is stored with the record and read
from there, and a record under a name that is taken replaces the other one. The
calls that build a grammar give each record the number of its place all the
same.
-/

namespace ParserGenerator

/-! ## Registers -/

/-- A record under a name, with the number that it was given. -/
structure Entry (Record : Type) where
  /-- The name under which the record is found. -/
  name : String
  /-- The number of the record. -/
  number : Nat
  /-- The record. -/
  record : Record

/-- Records under their names, in the order in which the names came first. -/
abbrev Register (Record : Type) := Array (Entry Record)

namespace Register

variable {Record : Type}

/-- The entry of a name. -/
def named? (register : Register Record) (name : String) :
    Option (Entry Record) :=
  register.find? (·.name == name)

/-- Put in an entry, in the place of the one that has its name or after all
others. -/
def insert (register : Register Record) (entry : Entry Record) :
    Register Record :=
  match register.findIdx? (·.name == entry.name) with
  | some place => register.setIfInBounds place entry
  | none => register.push entry

/-- Change the record at a place. -/
def modifyRecord (register : Register Record) (place : Nat)
    (change : Record → Record) : Register Record :=
  register.modify place fun entry =>
    { entry with record := change entry.record }

/-- Every record has the number of its place, and its own name. -/
def InStep (nameOf : Record → String) (register : Register Record) : Prop :=
  ∀ (place : Nat) (entry : Entry Record), register[place]? = some entry →
    entry.number = place ∧ entry.name = nameOf entry.record

/-- Records numbered by their places. -/
def numbered (nameOf : Record → String) (records : Array Record) :
    Register Record :=
  records.mapIdx fun place record => ⟨nameOf record, place, record⟩

variable {nameOf : Record → String} {records : Array Record}

theorem inStep_numbered : InStep nameOf (numbered nameOf records) := by
  intro place entry found
  rw [numbered, Array.getElem?_mapIdx, Option.map_eq_some_iff] at found
  obtain ⟨record, -, rfl⟩ := found
  exact ⟨rfl, rfl⟩

theorem findIdx?_numbered (name : String) :
    (numbered nameOf records).findIdx? (·.name == name) =
      records.findIdx? (nameOf · == name) := by
  refine Option.ext fun place => ?_
  simp only [Array.findIdx?_eq_some_iff_getElem, numbered,
    Array.getElem_mapIdx, Array.size_mapIdx]

/-- The number that is read from the entry of a name is the place of the
name. -/
theorem number_named?_numbered (name : String) :
    ((numbered nameOf records).named? name).map Entry.number =
      records.findIdx? (nameOf · == name) := by
  rw [named?, Array.find?_eq_bind_findIdx?_getElem?, findIdx?_numbered]
  cases found : records.findIdx? (nameOf · == name) with
  | none => rfl
  | some place =>
      obtain ⟨inside, -⟩ := Array.findIdx?_eq_some_iff_getElem.mp found
      simp [numbered, inside]

theorem isSome_named?_numbered (name : String) :
    ((numbered nameOf records).named? name).isSome =
      (records.findIdx? (nameOf · == name)).isSome := by
  rw [← number_named?_numbered, Option.isSome_map]

/-- A record with a new name is numbered by the number of records. -/
theorem insert_numbered
    (record : Record)
    (isNew : ¬ (records.findIdx? (nameOf · == nameOf record)).isSome = true) :
    (numbered nameOf records).insert
        ⟨nameOf record, records.size, record⟩ =
      numbered nameOf (records.push record) := by
  rw [insert, findIdx?_numbered, Option.not_isSome_iff_eq_none.mp isNew]
  exact Array.mapIdx_push.symm

theorem modifyRecord_numbered
    {change : Record → Record}
    (sameName : ∀ record, nameOf (change record) = nameOf record)
    (place : Nat) :
    (numbered nameOf records).modifyRecord place change =
      numbered nameOf (records.modify place change) := by
  refine Array.ext (by simp [modifyRecord, numbered]) fun index _ _ => ?_
  simp only [modifyRecord, numbered, Array.getElem_modify,
    Array.getElem_mapIdx]
  split <;> simp [sameName]

end Register

/-! ## Ledgers -/

/-- A grammar that keeps its symbols and productions in registers. -/
structure Ledger where
  /-- Whether letters of terminals match in either case. -/
  anyCase : Bool
  /-- The symbols. -/
  symbols : Register Symbol
  /-- The productions. -/
  productions : Register Production

namespace Ledger

/-- The number of the symbol with the given name, as it is stored. -/
def symbol? (ledger : Ledger) (name : String) : Option SymbolId :=
  (ledger.symbols.named? name).map Entry.number

/-- The number of the production with the given name, as it is stored. -/
def production? (ledger : Ledger) (name : String) : Option ProductionId :=
  (ledger.productions.named? name).map Entry.number

/-- Change one production. -/
def modifyProduction (ledger : Ledger) (production : ProductionId)
    (change : Production → Production) : Ledger :=
  { ledger with
    productions := ledger.productions.modifyRecord production change }

/-- Steps on a ledger that is changed in place. -/
abbrev InPlace (Value : Type) := ExceptT DefinitionError (StateM Ledger) Value

namespace InPlace

variable {Value Other : Type}

/-- What a step gives, and the ledger after it. -/
def on (step : InPlace Value) (ledger : Ledger) :
    Except DefinitionError Value × Ledger :=
  (StateT.run (ExceptT.run step) ledger).run

theorem on_bind
    (step : InPlace Value)
    (next : Value → InPlace Other)
    (ledger : Ledger) :
    (step >>= next).on ledger =
      match step.on ledger with
      | (.ok value, after) => (next value).on after
      | (.error error, after) => (.error error, after) := by
  unfold on
  rw [ExceptT.run_bind, StateT.run_bind]
  generalize StateT.run (ExceptT.run step) ledger = outcome
  obtain ⟨value | error, after⟩ := outcome <;> rfl

/-- Refuse a name that a symbol has already. -/
def checkNew (name : String) : InPlace PUnit := do
  if ((← get).symbols.named? name).isSome then
    throw (.duplicateSymbol name)

/-- Put in a symbol with the number of symbols so far. -/
def insertSymbol (name : String) (kind : SymbolKind) : InPlace SymbolId := do
  let number := (← get).symbols.size
  modify fun ledger =>
    { ledger with
      symbols := ledger.symbols.insert ⟨name, number, ⟨name, kind⟩⟩ }
  return number

/-- Declare a terminal by its pattern. -/
def createTerminal (name : String) (pattern : Pattern)
    (options : TerminalOptions) : InPlace SymbolId := do
  checkNew name
  if pattern.isNullable then
    throw (.emptyMatch name)
  else
    insertSymbol name (.terminal pattern options)

/-- Declare a terminal by the text of its pattern. -/
def createTerminalText [CharacterData] (name text : String)
    (options : TerminalOptions) : InPlace SymbolId := do
  checkNew name
  match Pattern.parse text with
  | .error error => throw (.pattern name error)
  | .ok pattern => createTerminal name pattern options

/-- Declare a non-terminal. -/
def createNonTerminal (name : String) : InPlace SymbolId := do
  checkNew name
  insertSymbol name .nonTerminal

/-- The number of a symbol that has to be declared. -/
def resolve (name : String) : InPlace SymbolId := do
  match (← get).symbol? name with
  | some symbol => return symbol
  | none => throw (.undeclaredSymbol name)

/-- The numbers of symbols that have to be declared, one after the other. -/
def resolveAll : List String → InPlace (List SymbolId)
  | [] => return []
  | name :: rest => do
      let symbol ← resolve name
      return symbol :: (← resolveAll rest)

/-- Put in a production with the number of productions so far. -/
def addRule (head : SymbolId) (name body : String) : InPlace ProductionId := do
  match (← get).symbols[head]? with
  | none => throw (.undeclaredSymbol s!"#{head}")
  | some entry =>
      if !entry.record.isNonTerminal then
        throw (.notNonTerminal entry.record.name)
      else if ((← get).productions.named? name).isSome then
        throw (.duplicateProduction name)
      else
        let symbols ← resolveAll (Text.words body)
        let number := (← get).productions.size
        modify fun ledger => { ledger with
          productions := ledger.productions.insert
            ⟨name, number, ⟨name, head, symbols, [], [], []⟩⟩ }
        return number

/-- The production of a name, to change its overrides. -/
def reopen (name : String) : InPlace ProductionId := do
  match (← get).production? name with
  | some production => return production
  | none => throw (.unknownProduction name)

/-- Let a shift win over a production on more symbols. -/
def extendShiftOn (production : ProductionId) (names : List String) :
    InPlace ProductionId := do
  let symbols ← resolveAll names
  modify (·.modifyProduction production fun rule =>
    { rule with shiftOn := mergeAscending rule.shiftOn (ascending symbols) })
  return production

/-- Let a production win on more symbols. -/
def extendReduceOn (production : ProductionId) (names : List String) :
    InPlace ProductionId := do
  let symbols ← resolveAll names
  modify (·.modifyProduction production fun rule =>
    { rule with reduceOn := mergeAscending rule.reduceOn (ascending symbols) })
  return production

/-- Forget what may follow a symbol in the body of a production, and set it
anew. -/
def replaceLookaheads (production : ProductionId) (marker : String)
    (names : List String) : InPlace ProductionId := do
  let symbol ← resolve marker
  let symbols ← resolveAll names
  match (← get).productions[production]? with
  | none => return production
  | some entry =>
      if !entry.record.body.contains symbol then
        throw (.markerNotInBody entry.record.name marker)
      else
        modify (·.modifyProduction production fun rule =>
          { rule with
            lookaheadOverrides :=
              rule.lookaheadOverrides.filter fun entry => entry.1 != symbol })
        modify (·.modifyProduction production fun rule =>
          { rule with
            lookaheadOverrides :=
              rule.lookaheadOverrides ++ [(symbol, ascending symbols)] })
        return production

open Grammar (Call)

/-- Make a call on a ledger. -/
def perform [CharacterData] : Call → InPlace Nat
  | .terminalText name text options => createTerminalText name text options
  | .terminal name pattern options => createTerminal name pattern options
  | .nonTerminal name => createNonTerminal name
  | .rule head name body => addRule head name body
  | .reopen name => reopen name
  | .shiftOn production names => extendShiftOn production names
  | .reduceOn production names => extendReduceOn production names
  | .lookaheads production marker names =>
      replaceLookaheads production marker names

end InPlace

/-- The ledger after some calls, those that fail included. -/
def afterCalls [CharacterData] (ledger : Ledger) : List Grammar.Call → Ledger
  | [] => ledger
  | call :: rest => ((InPlace.perform call).on ledger).2.afterCalls rest

/-- The ledger with nothing but the three structural symbols. -/
def empty (anyCase : Bool) : Ledger :=
  let structural : InPlace PUnit := do
    let _ ← InPlace.insertSymbol "$end" .endOfSource
    let _ ← InPlace.insertSymbol "$nl" .lineBreak
    let _ ← InPlace.insertSymbol "$nonl" .noLineBreak
  (structural.on ⟨anyCase, #[], #[]⟩).2

/-! ## Numbers in step with places -/

/-- Every symbol and every production has the number of its place, and is found
by its own name. -/
structure InStep (ledger : Ledger) : Prop where
  /-- The symbols are in step. -/
  symbols : ledger.symbols.InStep Symbol.name
  /-- The productions are in step. -/
  productions : ledger.productions.InStep Production.name

/-- The ledger of a grammar, with the numbers of the places. -/
def ofGrammar (grammar : Grammar) : Ledger :=
  ⟨grammar.anyCase, .numbered Symbol.name grammar.symbols,
    .numbered Production.name grammar.productions⟩

variable {grammar : Grammar}

theorem inStep_ofGrammar : (ofGrammar grammar).InStep :=
  ⟨Register.inStep_numbered, Register.inStep_numbered⟩

/-- A step on the ledger of a grammar gives what a step on the grammar gives,
and leads to the ledger of the grammar after it. -/
def Reflects {Value : Type} (grammar : Grammar) (step : InPlace Value)
    (plain : Grammar.InPlace Value) : Prop :=
  step.on (ofGrammar grammar) =
    ((plain.on grammar).1, ofGrammar (plain.on grammar).2)

namespace Reflects

variable {Value Other : Type} {step : InPlace Value}
  {plain : Grammar.InPlace Value}

theorem bind
    {next : Value → InPlace Other}
    {plainNext : Value → Grammar.InPlace Other}
    (first : Reflects grammar step plain)
    (rest : ∀ value after, plain.on grammar = (.ok value, after) →
      Reflects after (next value) (plainNext value)) :
    Reflects grammar (step >>= next) (plain >>= plainNext) := by
  unfold Reflects at first ⊢
  rw [InPlace.on_bind, first, Grammar.InPlace.on_bind]
  rcases given : plain.on grammar with ⟨error | value, after⟩
  · rfl
  · exact rest value after given

theorem get_bind
    {next : Ledger → InPlace Other}
    {plainNext : Grammar → Grammar.InPlace Other}
    (rest : Reflects grammar (next (ofGrammar grammar)) (plainNext grammar)) :
    Reflects grammar (get >>= next) (get >>= plainNext) :=
  rest

theorem modify
    {change : Ledger → Ledger}
    {plainChange : Grammar → Grammar}
    (same : change (ofGrammar grammar) = ofGrammar (plainChange grammar)) :
    Reflects grammar (modify change) (modify plainChange) :=
  congrArg (Prod.mk (Except.ok PUnit.unit)) same

end Reflects

/-! ## Calls on ledgers -/

variable (grammar)

theorem isSome_symbol_named? (name : String) :
    ((ofGrammar grammar).symbols.named? name).isSome =
      (grammar.symbol? name).isSome :=
  Register.isSome_named?_numbered name

theorem isSome_production_named? (name : String) :
    ((ofGrammar grammar).productions.named? name).isSome =
      (grammar.production? name).isSome :=
  Register.isSome_named?_numbered name

theorem symbol?_ofGrammar (name : String) :
    (ofGrammar grammar).symbol? name = grammar.symbol? name :=
  Register.number_named?_numbered name

theorem production?_ofGrammar (name : String) :
    (ofGrammar grammar).production? name = grammar.production? name :=
  Register.number_named?_numbered name

/-- The record at a place is the one of the grammar. -/
theorem getElem?_symbols_ofGrammar (symbol : SymbolId) :
    (ofGrammar grammar).symbols[symbol]? =
      grammar.symbols[symbol]?.map fun record =>
        ⟨record.name, symbol, record⟩ :=
  Array.getElem?_mapIdx

theorem getElem?_productions_ofGrammar (production : ProductionId) :
    (ofGrammar grammar).productions[production]? =
      grammar.productions[production]?.map fun record =>
        ⟨record.name, production, record⟩ :=
  Array.getElem?_mapIdx

/-- A production that keeps its name keeps its number. -/
theorem reflects_modifyProduction
    {production : ProductionId}
    {change : Production → Production}
    (sameName : ∀ rule, (change rule).name = rule.name) :
    Reflects grammar (modify (·.modifyProduction production change))
      (modify (·.modifyProduction production change)) :=
  .modify (congrArg (Ledger.mk _ _)
    (Register.modifyRecord_numbered sameName production))

theorem reflects_checkNew (name : String) :
    Reflects grammar (.checkNew name) (.checkNew name) := by
  refine .get_bind ?_
  rw [isSome_symbol_named?]
  split <;> rfl

/-- A symbol whose name was checked is put in after all others. -/
theorem reflects_insertSymbol
    {name : String}
    (isNew : ¬ (grammar.symbol? name).isSome = true)
    (kind : SymbolKind) :
    Reflects grammar (.insertSymbol name kind) (.insertSymbol name kind) := by
  have size : (ofGrammar grammar).symbols.size = grammar.symbols.size :=
    Array.size_mapIdx
  refine .get_bind ?_
  rw [size]
  refine .bind (.modify ?_) fun _ _ _ => rfl
  exact congrArg (fun symbols => Ledger.mk _ symbols _)
    (@Register.insert_numbered _ Symbol.name grammar.symbols ⟨name, kind⟩
      isNew)

theorem isNew_of_checkNew
    {name : String}
    {value : PUnit}
    {after : Grammar}
    (checked : (Grammar.InPlace.checkNew name).on grammar =
      (.ok value, after)) :
    ¬ (grammar.symbol? name).isSome = true ∧ after = grammar := by
  rw [Grammar.InPlace.on_checkNew] at checked
  obtain ⟨passed, rfl⟩ := Prod.mk.inj checked
  refine ⟨fun isOld => ?_, rfl⟩
  rw [if_pos isOld] at passed
  cases passed

theorem reflects_createTerminal
    (name : String)
    (pattern : Pattern)
    (options : TerminalOptions) :
    Reflects grammar (.createTerminal name pattern options)
      (.createTerminal name pattern options) := by
  refine .bind (reflects_checkNew grammar name) fun _ after checked => ?_
  obtain ⟨isNew, rfl⟩ := isNew_of_checkNew grammar checked
  split
  · rfl
  · exact reflects_insertSymbol after isNew _

theorem reflects_createTerminalText
    [CharacterData]
    (name text : String)
    (options : TerminalOptions) :
    Reflects grammar (.createTerminalText name text options)
      (.createTerminalText name text options) := by
  refine .bind (reflects_checkNew grammar name) fun _ after _ => ?_
  cases Pattern.parse text with
  | error error => rfl
  | ok pattern => exact reflects_createTerminal after name pattern options

theorem reflects_createNonTerminal (name : String) :
    Reflects grammar (.createNonTerminal name) (.createNonTerminal name) := by
  refine .bind (reflects_checkNew grammar name) fun _ after checked => ?_
  obtain ⟨isNew, rfl⟩ := isNew_of_checkNew grammar checked
  exact reflects_insertSymbol after isNew _

theorem reflects_resolve (name : String) :
    Reflects grammar (.resolve name) (.resolve name) := by
  refine .get_bind ?_
  rw [symbol?_ofGrammar]
  cases grammar.symbol? name <;> rfl

theorem reflects_resolveAll (names : List String) :
    Reflects grammar (.resolveAll names) (.resolveAll names) := by
  induction names generalizing grammar with
  | nil => rfl
  | cons name rest inductionHypothesis =>
      refine .bind (reflects_resolve grammar name) fun _ after _ => ?_
      exact .bind (inductionHypothesis after) fun _ _ _ => rfl

theorem reflects_addRule (head : SymbolId) (name body : String) :
    Reflects grammar (.addRule head name body) (.addRule head name body) := by
  refine .get_bind ?_
  rw [getElem?_symbols_ofGrammar]
  cases grammar.symbols[head]? with
  | none => rfl
  | some symbol =>
      dsimp only [Option.map_some]
      split
      · rfl
      · refine .get_bind ?_
        rw [isSome_production_named?]
        split
        · rfl
        · next isNew =>
            refine .bind (reflects_resolveAll grammar _)
              fun symbols after resolved => ?_
            rw [Grammar.InPlace.on_resolveAll] at resolved
            obtain ⟨-, rfl⟩ := Prod.mk.inj resolved
            have size : (ofGrammar grammar).productions.size =
                grammar.productions.size := Array.size_mapIdx
            refine .get_bind ?_
            rw [size]
            refine .bind (.modify ?_) fun _ _ _ => rfl
            exact congrArg (Ledger.mk _ _)
              (@Register.insert_numbered _ Production.name _
                ⟨name, head, symbols, [], [], []⟩ isNew)

theorem reflects_reopen (name : String) :
    Reflects grammar (.reopen name) (.reopen name) := by
  refine .get_bind ?_
  rw [production?_ofGrammar]
  cases grammar.production? name <;> rfl

theorem reflects_extendShiftOn
    (production : ProductionId)
    (names : List String) :
    Reflects grammar (.extendShiftOn production names)
      (.extendShiftOn production names) := by
  refine .bind (reflects_resolveAll grammar names) fun symbols after _ => ?_
  exact .bind (reflects_modifyProduction after fun _ => rfl) fun _ _ _ => rfl

theorem reflects_extendReduceOn
    (production : ProductionId)
    (names : List String) :
    Reflects grammar (.extendReduceOn production names)
      (.extendReduceOn production names) := by
  refine .bind (reflects_resolveAll grammar names) fun symbols after _ => ?_
  exact .bind (reflects_modifyProduction after fun _ => rfl) fun _ _ _ => rfl

theorem reflects_replaceLookaheads
    (production : ProductionId)
    (marker : String)
    (names : List String) :
    Reflects grammar (.replaceLookaheads production marker names)
      (.replaceLookaheads production marker names) := by
  refine .bind (reflects_resolve grammar marker) fun symbol next _ => ?_
  refine .bind (reflects_resolveAll next names) fun symbols after _ => ?_
  refine .get_bind ?_
  rw [getElem?_productions_ofGrammar]
  cases after.productions[production]? with
  | none => rfl
  | some rule =>
      dsimp only [Option.map_some]
      split
      · rfl
      · refine .bind (reflects_modifyProduction after fun _ => rfl)
          fun _ last _ => ?_
        exact .bind (reflects_modifyProduction last fun _ => rfl)
          fun _ _ _ => rfl

/-- A call gives the same on the ledger of a grammar as on the grammar, and
leaves the numbers in step with the places. -/
theorem reflects_perform
    [CharacterData]
    (call : Grammar.Call) :
    Reflects grammar (.perform call) call.perform := by
  cases call with
  | terminalText name text options =>
      exact reflects_createTerminalText grammar name text options
  | terminal name pattern options =>
      exact reflects_createTerminal grammar name pattern options
  | nonTerminal name => exact reflects_createNonTerminal grammar name
  | rule head name body => exact reflects_addRule grammar head name body
  | reopen name => exact reflects_reopen grammar name
  | shiftOn production names =>
      exact reflects_extendShiftOn grammar production names
  | reduceOn production names =>
      exact reflects_extendReduceOn grammar production names
  | lookaheads production marker names =>
      exact reflects_replaceLookaheads grammar production marker names

/-- The structural symbols are put in like any others. -/
theorem empty_eq (anyCase : Bool) :
    empty anyCase = ofGrammar (Grammar.empty anyCase) := by
  have structural : Reflects ⟨anyCase, #[], #[]⟩
      (do
        let _ ← InPlace.insertSymbol "$end" .endOfSource
        let _ ← InPlace.insertSymbol "$nl" .lineBreak
        let _ ← InPlace.insertSymbol "$nonl" .noLineBreak)
      (do
        let _ ← Grammar.InPlace.insertSymbol "$end" .endOfSource
        let _ ← Grammar.InPlace.insertSymbol "$nl" .lineBreak
        let _ ← Grammar.InPlace.insertSymbol "$nonl" .noLineBreak) := by
    refine .bind (reflects_insertSymbol _ (by simp [Grammar.symbol?]) _) ?_
    rintro _ _ ⟨⟩
    refine .bind (reflects_insertSymbol _ (by simp [Grammar.symbol?]) _) ?_
    rintro _ _ ⟨⟩
    refine .bind (reflects_insertSymbol _ (by simp [Grammar.symbol?]) _) ?_
    exact fun _ _ _ => rfl
  exact congrArg Prod.snd structural

end Ledger
end ParserGenerator
