import ParserGenerator.Proofs.Grammar.Ledger

/-!
# Consistent grammars

What holds of every grammar that calls lead to: its structural symbols come
first, names are unique, patterns match something, and productions refer to
declared symbols only. Each kind of change keeps this, and each call makes one
of these changes or none.
-/

namespace ParserGenerator

/-! ## Names and numbers -/

section Names

variable {Value : Type} {nameOf : Value → String} {values : Array Value}

/-- Where names are unique, looking one up gives the place of the value that
has it. -/
theorem findIdx?_name_eq_some_iff
    (distinct : (values.toList.map nameOf).Nodup)
    {name : String}
    {index : Nat} :
    values.findIdx? (nameOf · == name) = some index ↔
      values[index]?.map nameOf = some name := by
  rw [Array.findIdx?_eq_some_iff_getElem, Option.map_eq_some_iff]
  constructor
  · rintro ⟨inside, isName, -⟩
    exact ⟨_, Array.getElem?_eq_getElem inside, eq_of_beq isName⟩
  · rintro ⟨value, found, rfl⟩
    obtain ⟨inside, rfl⟩ := Array.getElem?_eq_some_iff.mp found
    refine ⟨inside, beq_self_eq_true _, fun earlier before same => ?_⟩
    have earlierInside := Nat.lt_trans before inside
    have atBoth :
        (values.toList.map nameOf).get ⟨earlier, by simpa⟩ =
          (values.toList.map nameOf).get ⟨index, by simpa⟩ := by
      simpa using eq_of_beq same
    exact Nat.ne_of_lt before
      (Fin.mk.inj_iff.mp (distinct.injective_get atBoth))

/-- A value with a new name may be added to values with unique names. -/
theorem nodup_names_push
    (distinct : (values.toList.map nameOf).Nodup)
    {value : Value}
    (isNew :
      ¬ (values.findIdx? (nameOf · == nameOf value)).isSome = true) :
    ((values.push value).toList.map nameOf).Nodup := by
  rw [Option.not_isSome_iff_eq_none, Array.findIdx?_eq_none_iff] at isNew
  rw [Array.toList_push, List.map_append]
  refine List.nodup_append.mpr ⟨distinct, List.nodup_singleton _, ?_⟩
  rintro name member _ isLast rfl
  obtain rfl := List.mem_singleton.mp isLast
  obtain ⟨earlier, isEarlier, same⟩ := List.mem_map.mp member
  simpa [same] using isNew earlier (Array.mem_toList_iff.mp isEarlier)

/-- Changes that keep the name of a value keep all names. -/
theorem map_names_modify
    {index : Nat}
    {change : Value → Value}
    (sameName : ∀ value, nameOf (change value) = nameOf value) :
    (values.modify index change).toList.map nameOf =
      values.toList.map nameOf := by
  refine List.ext_getElem (by simp) fun place left right => ?_
  simp only [List.getElem_map, Array.getElem_toList, Array.getElem_modify]
  split
  · exact sameName _
  · rfl

end Names

/-! ## Productions -/

/-- What a production may refer to, given the symbols of its grammar. -/
structure Production.Proper (rule : Production) (grammar : Grammar) :
    Prop where
  /-- The head is a non-terminal. -/
  head : grammar.isNonTerminal rule.head = true
  /-- The symbols of the body are declared. -/
  body : ∀ symbol ∈ rule.body, symbol < grammar.symbols.size
  /-- The symbols on which a shift wins are declared. -/
  shiftOn : ∀ symbol ∈ rule.shiftOn, symbol < grammar.symbols.size
  /-- The symbols on which the production wins are declared. -/
  reduceOn : ∀ symbol ∈ rule.reduceOn, symbol < grammar.symbols.size
  /-- The symbols that follow by an override are declared. -/
  followers : ∀ entry ∈ rule.lookaheadOverrides, ∀ symbol ∈ entry.2,
    symbol < grammar.symbols.size
  /-- Overrides are for symbols of the body. -/
  markers : ∀ entry ∈ rule.lookaheadOverrides, entry.1 ∈ rule.body
  /-- There is one override at most for each symbol. -/
  once : (rule.lookaheadOverrides.map Prod.fst).Nodup

namespace Production

variable {rule : Production} {grammar : Grammar}

/-- A new symbol takes nothing from a production. -/
theorem Proper.push
    (proper : rule.Proper grammar)
    (added : Symbol) :
    rule.Proper { grammar with symbols := grammar.symbols.push added } := by
  have grown : grammar.symbols.size < (grammar.symbols.push added).size := by
    simp
  refine ⟨?_, ?_, ?_, ?_, ?_, proper.markers, proper.once⟩
  · have inside := Grammar.lt_size_of_isNonTerminal proper.head
    rw [← proper.head]
    simp [Grammar.isNonTerminal, Array.getElem?_push, Nat.ne_of_lt inside]
  · exact fun symbol member => Nat.lt_trans (proper.body symbol member) grown
  · exact fun symbol member => Nat.lt_trans (proper.shiftOn symbol member) grown
  · exact fun symbol member =>
      Nat.lt_trans (proper.reduceOn symbol member) grown
  · exact fun entry isEntry symbol member =>
      Nat.lt_trans (proper.followers entry isEntry symbol member) grown

/-- Symbols that are declared may be added to those on which a shift wins. -/
theorem Proper.extendShiftOn
    (proper : rule.Proper grammar)
    {symbols : List SymbolId}
    (known : ∀ symbol ∈ symbols, symbol < grammar.symbols.size) :
    Proper { rule with
      shiftOn := mergeAscending rule.shiftOn (ascending symbols) } grammar :=
  { proper with
    shiftOn := by
      intro symbol member
      rw [mem_mergeAscending, mem_ascending] at member
      exact member.elim (proper.shiftOn symbol) (known symbol) }

/-- Symbols that are declared may be added to those on which the production
wins. -/
theorem Proper.extendReduceOn
    (proper : rule.Proper grammar)
    {symbols : List SymbolId}
    (known : ∀ symbol ∈ symbols, symbol < grammar.symbols.size) :
    Proper { rule with
      reduceOn := mergeAscending rule.reduceOn (ascending symbols) } grammar :=
  { proper with
    reduceOn := by
      intro symbol member
      rw [mem_mergeAscending, mem_ascending] at member
      exact member.elim (proper.reduceOn symbol) (known symbol) }

/-- What may follow a symbol of the body may be set to declared symbols. -/
theorem Proper.replaceLookaheads
    (proper : rule.Proper grammar)
    {marker : SymbolId}
    {symbols : List SymbolId}
    (inBody : marker ∈ rule.body)
    (known : ∀ symbol ∈ symbols, symbol < grammar.symbols.size) :
    Proper { rule with
      lookaheadOverrides :=
        rule.lookaheadOverrides.filter (fun entry => entry.1 != marker) ++
          [(marker, ascending symbols)] } grammar := by
  refine { proper with followers := ?_, markers := ?_, once := ?_ }
  · intro entry isEntry symbol member
    rcases List.mem_append.mp isEntry with kept | added
    · exact proper.followers entry (List.mem_of_mem_filter kept) symbol member
    · obtain rfl := List.mem_singleton.mp added
      exact known symbol (mem_ascending.mp member)
  · intro entry isEntry
    rcases List.mem_append.mp isEntry with kept | added
    · exact proper.markers entry (List.mem_of_mem_filter kept)
    · obtain rfl := List.mem_singleton.mp added
      exact inBody
  · rw [List.map_append]
    refine List.nodup_append.mpr ⟨?_, List.nodup_singleton _, ?_⟩
    · exact proper.once.sublist (List.filter_sublist.map Prod.fst)
    · rintro other member _ isLast rfl
      obtain rfl := List.mem_singleton.mp isLast
      obtain ⟨entry, kept, same⟩ := List.mem_map.mp member
      simpa [same] using (List.mem_filter.mp kept).2

end Production

namespace Grammar

/-! ## Grammars -/

/-- What holds of a grammar whatever calls were made to build it. -/
structure Consistent (grammar : Grammar) : Prop where
  /-- The structural symbols come first. -/
  structural : grammar.symbols.toList.take 3 =
    (Grammar.empty grammar.anyCase).symbols.toList
  /-- No two symbols have one name. -/
  symbolNames : (grammar.symbols.toList.map Symbol.name).Nodup
  /-- No two productions have one name. -/
  productionNames : (grammar.productions.toList.map Production.name).Nodup
  /-- The patterns of terminals match something. -/
  patterns : ∀ symbol ∈ grammar.symbols, ∀ pattern options,
    symbol.kind = .terminal pattern options → pattern.isNullable = false
  /-- Productions refer to what is declared. -/
  proper : ∀ rule ∈ grammar.productions, rule.Proper grammar

variable {grammar after : Grammar}

namespace Consistent

theorem empty (anyCase : Bool) : (Grammar.empty anyCase).Consistent where
  structural := rfl
  symbolNames := by simp [Grammar.empty]
  productionNames := by simp [Grammar.empty]
  patterns := by simp [Grammar.empty]
  proper := by simp [Grammar.empty]

/-- Symbols are numbered by their place, and found by their name. -/
theorem symbol?_eq_some_iff
    (consistent : grammar.Consistent)
    {name : String}
    {symbol : SymbolId} :
    grammar.symbol? name = some symbol ↔
      grammar.symbols[symbol]?.map Symbol.name = some name :=
  findIdx?_name_eq_some_iff consistent.symbolNames

/-- Productions are numbered by their place, and found by their name. -/
theorem production?_eq_some_iff
    (consistent : grammar.Consistent)
    {name : String}
    {production : ProductionId} :
    grammar.production? name = some production ↔
      grammar.productions[production]?.map Production.name = some name :=
  findIdx?_name_eq_some_iff consistent.productionNames

theorem pushSymbol
    (consistent : grammar.Consistent)
    {name : String}
    (isNew : ¬ (grammar.symbol? name).isSome = true)
    {kind : SymbolKind}
    (pattern : ∀ pattern options, kind = .terminal pattern options →
      pattern.isNullable = false) :
    Consistent
      { grammar with symbols := grammar.symbols.push ⟨name, kind⟩ } where
  structural := by
    rw [Array.toList_push, List.take_append_of_le_length]
    · exact consistent.structural
    · have enough : (grammar.symbols.toList.take 3).length = 3 :=
        congrArg List.length consistent.structural
      rw [List.length_take] at enough
      omega
  symbolNames := nodup_names_push consistent.symbolNames isNew
  productionNames := consistent.productionNames
  patterns := by
    intro symbol member
    rcases Array.mem_push.mp member with earlier | rfl
    · exact consistent.patterns symbol earlier
    · exact pattern
  proper rule member := (consistent.proper rule member).push _

theorem pushProduction
    (consistent : grammar.Consistent)
    {head : SymbolId}
    {name : String}
    {body : List SymbolId}
    (isNew : ¬ (grammar.production? name).isSome = true)
    (isNonTerminal : grammar.isNonTerminal head = true)
    (known : ∀ symbol ∈ body, symbol < grammar.symbols.size) :
    Consistent { grammar with
      productions :=
        grammar.productions.push ⟨name, head, body, [], [], []⟩ } where
  structural := consistent.structural
  symbolNames := consistent.symbolNames
  productionNames := nodup_names_push consistent.productionNames isNew
  patterns := consistent.patterns
  proper := by
    intro rule member
    rcases Array.mem_push.mp member with earlier | rfl
    · have proper := consistent.proper rule earlier
      exact { proper with }
    · exact ⟨isNonTerminal, known, by simp, by simp, by simp, by simp, by simp⟩

/-- A production may be changed if it keeps its name and stays proper. -/
theorem modifyProduction
    (consistent : grammar.Consistent)
    (production : ProductionId)
    {change : Production → Production}
    (sameName : ∀ rule, (change rule).name = rule.name)
    (proper : ∀ rule, grammar.productions[production]? = some rule →
      (change rule).Proper grammar) :
    (grammar.modifyProduction production change).Consistent where
  structural := consistent.structural
  symbolNames := consistent.symbolNames
  productionNames := by
    unfold Grammar.modifyProduction
    rw [map_names_modify sameName]
    exact consistent.productionNames
  patterns := consistent.patterns
  proper := by
    intro rule member
    obtain ⟨index, inside, rfl⟩ := Array.mem_iff_getElem.mp member
    have earlier : index < grammar.productions.size := by
      simpa [Grammar.modifyProduction] using inside
    have isProper : ((grammar.modifyProduction production
        change).productions[index]).Proper grammar := by
      simp only [Grammar.modifyProduction, Array.getElem_modify]
      split
      · next isProduction =>
          subst isProduction
          exact proper _ (Array.getElem?_eq_getElem earlier)
      · exact consistent.proper _ (Array.getElem_mem earlier)
    exact { isProper with }

end Consistent

/-! ## What a call changes -/

/-- The symbol that a call declares. -/
def Call.Declares [CharacterData] : Call → Symbol → Prop
  | .terminalText name text options, symbol =>
      ∃ pattern, Pattern.parse text = .ok pattern ∧
        symbol = ⟨name, .terminal pattern options⟩
  | .terminal name pattern options, symbol =>
      symbol = ⟨name, .terminal pattern options⟩
  | .nonTerminal name, symbol => symbol = ⟨name, .nonTerminal⟩
  | _, _ => False

/-- The overrides of a production that a call changes. -/
def Call.Overrides : Call → ProductionId → (Production → Production) → Prop
  | .shiftOn production _, number, change =>
      number = production ∧
        ∀ rule, change rule = { rule with shiftOn := (change rule).shiftOn }
  | .reduceOn production _, number, change =>
      number = production ∧
        ∀ rule, change rule = { rule with reduceOn := (change rule).reduceOn }
  | .lookaheads production _ _, number, change =>
      number = production ∧
        ∀ rule, change rule = { rule with
          lookaheadOverrides := (change rule).lookaheadOverrides }
  | _, _, _ => False

/-- What a call that succeeds makes of a grammar, and the number that it
gives. -/
inductive Effect [CharacterData] (grammar : Grammar) :
    Call → Nat → Grammar → Prop
  /-- A symbol is added and given the next number. -/
  | symbol
      {call : Call}
      {symbol : Symbol}
      (declares : call.Declares symbol) :
      Effect grammar call grammar.symbols.size
        { grammar with symbols := grammar.symbols.push symbol }
  /-- A production is added and given the next number. -/
  | production
      {head : SymbolId}
      {name body : String}
      {symbols : List SymbolId}
      (spelt : symbols.map grammar.name = Text.words body) :
      Effect grammar (.rule head name body) grammar.productions.size
        { grammar with
          productions :=
            grammar.productions.push ⟨name, head, symbols, [], [], []⟩ }
  /-- A production is found by its name. -/
  | found
      {name : String}
      {production : ProductionId}
      (isFound : grammar.production? name = some production) :
      Effect grammar (.reopen name) production grammar
  /-- The overrides of the named production change. -/
  | overrides
      {call : Call}
      {production : ProductionId}
      {change : Production → Production}
      (overrides : call.Overrides production change) :
      Effect grammar call production
        (grammar.modifyProduction production change)

/-! ## Names of a body -/

theorem name_of_resolve
    {name : String}
    {symbol : SymbolId}
    (resolved : grammar.resolve name = .ok symbol) :
    grammar.name symbol = name := by
  unfold resolve at resolved
  split at resolved
  · next found =>
      obtain rfl := Except.ok.inj resolved
      obtain ⟨inside, isName, -⟩ :=
        Array.findIdx?_eq_some_iff_getElem.mp found
      simp [Grammar.name, inside, eq_of_beq isName]
  · simp at resolved

theorem map_name_of_resolveAll
    {names : List String}
    {symbols : List SymbolId}
    (resolved : grammar.resolveAll names = .ok symbols) :
    symbols.map grammar.name = names := by
  induction names generalizing symbols with
  | nil =>
      obtain rfl := Except.ok.inj resolved
      rfl
  | cons name rest inductionHypothesis =>
      unfold resolveAll at resolved
      obtain ⟨symbol, first, resolved⟩ := exists_ok_of_bind resolved
      obtain ⟨others, rest, resolved⟩ := exists_ok_of_bind resolved
      obtain rfl := Except.ok.inj resolved
      rw [List.map_cons, name_of_resolve first, inductionHypothesis rest]

/-! ## Calls that succeed -/

theorem addSymbol_eq_ok
    {name : String}
    {kind : SymbolKind}
    {symbol : SymbolId}
    (added : grammar.addSymbol name kind = .ok (after, symbol)) :
    ¬ (grammar.symbol? name).isSome = true ∧
      after = { grammar with symbols := grammar.symbols.push ⟨name, kind⟩ } ∧
      symbol = grammar.symbols.size := by
  unfold addSymbol at added
  split at added
  · simp at added
  · next isNew =>
      obtain ⟨rfl, rfl⟩ := Prod.mk.inj (Except.ok.inj added)
      exact ⟨isNew, rfl, rfl⟩

theorem declareTerminal_eq_ok
    {name : String}
    {pattern : Pattern}
    {options : TerminalOptions}
    {symbol : SymbolId}
    (added : grammar.declareTerminal name pattern options =
      .ok (after, symbol)) :
    pattern.isNullable = false ∧
      grammar.addSymbol name (.terminal pattern options) =
        .ok (after, symbol) := by
  unfold declareTerminal at added
  split at added
  · simp at added
  · split at added
    · simp at added
    · next matchesSomething =>
        exact ⟨Bool.eq_false_iff.mpr matchesSomething, added⟩

theorem declareTerminalText_eq_ok
    [CharacterData]
    {name text : String}
    {options : TerminalOptions}
    {symbol : SymbolId}
    (added : grammar.declareTerminalText name text options =
      .ok (after, symbol)) :
    ∃ pattern, Pattern.parse text = .ok pattern ∧
      grammar.declareTerminal name pattern options = .ok (after, symbol) := by
  unfold declareTerminalText at added
  split at added
  · simp at added
  · split at added
    · simp at added
    · next pattern parsed => exact ⟨pattern, parsed, added⟩

theorem addRule_eq_ok
    {head : SymbolId}
    {name body : String}
    {production : ProductionId}
    (added : grammar.addRule head name body = .ok (after, production)) :
    ∃ symbols, grammar.resolveAll (Text.words body) = .ok symbols ∧
      grammar.isNonTerminal head = true ∧
      ¬ (grammar.production? name).isSome = true ∧
      after = { grammar with
        productions :=
          grammar.productions.push ⟨name, head, symbols, [], [], []⟩ } ∧
      production = grammar.productions.size := by
  unfold addRule at added
  split at added
  · simp at added
  next symbol found =>
  split at added
  · simp at added
  next isNonTerminal =>
  split at added
  · simp at added
  next isNew =>
  obtain ⟨symbols, resolved, added⟩ := exists_ok_of_bind added
  obtain ⟨rfl, rfl⟩ := Prod.mk.inj (Except.ok.inj added)
  refine ⟨symbols, resolved, ?_, isNew, rfl, rfl⟩
  simpa [Grammar.isNonTerminal, found] using isNonTerminal

theorem overrideLookaheads_eq_ok
    {production : ProductionId}
    {marker : String}
    {names : List String}
    (changed : grammar.overrideLookaheads production marker names =
      .ok after) :
    ∃ symbol symbols, grammar.resolveAll names = .ok symbols ∧
      (grammar.productions[production]? = none ∧ after = grammar ∨
        ∃ rule, grammar.productions[production]? = some rule ∧
          symbol ∈ rule.body ∧
          after = grammar.modifyProduction production fun other =>
            { other with
              lookaheadOverrides :=
                rule.lookaheadOverrides.filter
                  (fun entry => entry.1 != symbol) ++
                  [(symbol, ascending symbols)] }) := by
  unfold overrideLookaheads at changed
  obtain ⟨symbol, -, changed⟩ := exists_ok_of_bind changed
  obtain ⟨symbols, resolved, changed⟩ := exists_ok_of_bind changed
  refine ⟨symbol, symbols, resolved, ?_⟩
  split at changed
  · next missing => exact .inl ⟨missing, (Except.ok.inj changed).symm⟩
  · next rule found =>
      split at changed
      · simp [throw, throwThe, MonadExceptOf.throw] at changed
      · next inBody =>
          refine .inr ⟨rule, found, ?_, (Except.ok.inj changed).symm⟩
          simpa using inBody

/-- A change of a production that is not there is none. -/
theorem modifyProduction_of_none
    {production : ProductionId}
    (missing : grammar.productions[production]? = none)
    (change : Production → Production) :
    grammar.modifyProduction production change = grammar := by
  have outside := Array.getElem?_eq_none_iff.mp missing
  unfold modifyProduction
  congr 1
  refine Array.ext (by simp) fun index _ inside => ?_
  rw [Array.getElem_modify, if_neg (by omega)]

/-- A step with a changed result succeeds if the step does. -/
theorem exists_ok_of_map
    {Value Other : Type}
    {step : Except DefinitionError Value}
    {change : Value → Other}
    {result : Other}
    (succeeds : step.map change = .ok result) :
    ∃ value, step = .ok value ∧ change value = result := by
  cases step with
  | error error => simp [Except.map] at succeeds
  | ok value => exact ⟨value, rfl, Except.ok.inj succeeds⟩

/-! ## Effects -/

theorem settles_addSymbol
    [CharacterData]
    (consistent : grammar.Consistent)
    {call : Call}
    {name : String}
    {kind : SymbolKind}
    {number : Nat}
    (declares : call.Declares ⟨name, kind⟩)
    (pattern : ∀ pattern options, kind = .terminal pattern options →
      pattern.isNullable = false)
    (added : grammar.addSymbol name kind = .ok (after, number)) :
    after.Consistent ∧ Effect grammar call number after := by
  obtain ⟨isNew, rfl, rfl⟩ := addSymbol_eq_ok added
  exact ⟨consistent.pushSymbol isNew pattern, .symbol declares⟩

theorem settles_declareTerminal
    [CharacterData]
    (consistent : grammar.Consistent)
    {call : Call}
    {name : String}
    {pattern : Pattern}
    {options : TerminalOptions}
    {number : Nat}
    (declares : call.Declares ⟨name, .terminal pattern options⟩)
    (added : grammar.declareTerminal name pattern options =
      .ok (after, number)) :
    after.Consistent ∧ Effect grammar call number after := by
  obtain ⟨matchesSomething, added⟩ := declareTerminal_eq_ok added
  refine settles_addSymbol consistent declares ?_ added
  rintro _ _ same
  obtain ⟨rfl, -⟩ := SymbolKind.terminal.inj same
  exact matchesSomething

theorem settles_addRule
    [CharacterData]
    (consistent : grammar.Consistent)
    {head : SymbolId}
    {name body : String}
    {number : Nat}
    (added : grammar.addRule head name body = .ok (after, number)) :
    after.Consistent ∧ Effect grammar (.rule head name body) number after := by
  obtain ⟨symbols, resolved, isNonTerminal, isNew, rfl, rfl⟩ :=
    addRule_eq_ok added
  have known := lt_size_of_resolveAll resolved
  exact ⟨consistent.pushProduction isNew isNonTerminal known,
    .production (map_name_of_resolveAll resolved)⟩

theorem settles_addShiftOn
    [CharacterData]
    (consistent : grammar.Consistent)
    {production : ProductionId}
    {names : List String}
    (changed : grammar.addShiftOn production names = .ok after) :
    after.Consistent ∧
      Effect grammar (.shiftOn production names) production after := by
  obtain ⟨symbols, resolved, changed⟩ := exists_ok_of_bind changed
  obtain rfl := Except.ok.inj changed
  refine ⟨consistent.modifyProduction production (fun _ => rfl)
    fun rule found => ?_, .overrides ⟨rfl, fun _ => rfl⟩⟩
  have proper := consistent.proper rule (Array.mem_of_getElem? found)
  exact proper.extendShiftOn (lt_size_of_resolveAll resolved)

theorem settles_addReduceOn
    [CharacterData]
    (consistent : grammar.Consistent)
    {production : ProductionId}
    {names : List String}
    (changed : grammar.addReduceOn production names = .ok after) :
    after.Consistent ∧
      Effect grammar (.reduceOn production names) production after := by
  obtain ⟨symbols, resolved, changed⟩ := exists_ok_of_bind changed
  obtain rfl := Except.ok.inj changed
  refine ⟨consistent.modifyProduction production (fun _ => rfl)
    fun rule found => ?_, .overrides ⟨rfl, fun _ => rfl⟩⟩
  have proper := consistent.proper rule (Array.mem_of_getElem? found)
  exact proper.extendReduceOn (lt_size_of_resolveAll resolved)

theorem settles_overrideLookaheads
    [CharacterData]
    (consistent : grammar.Consistent)
    {production : ProductionId}
    {marker : String}
    {names : List String}
    (changed : grammar.overrideLookaheads production marker names =
      .ok after) :
    after.Consistent ∧
      Effect grammar (.lookaheads production marker names) production
        after := by
  obtain ⟨symbol, symbols, resolved, ⟨missing, rfl⟩ |
    ⟨rule, found, inBody, rfl⟩⟩ := overrideLookaheads_eq_ok changed
  · have effect : Effect after (.lookaheads production marker names) production
        (after.modifyProduction production id) :=
      .overrides ⟨rfl, fun _ => rfl⟩
    rw [modifyProduction_of_none missing] at effect
    exact ⟨consistent, effect⟩
  · refine ⟨consistent.modifyProduction production (fun _ => rfl)
      fun other otherFound => ?_, .overrides ⟨rfl, fun _ => rfl⟩⟩
    obtain rfl := Option.some.inj (found.symm.trans otherFound)
    have proper := consistent.proper rule (Array.mem_of_getElem? found)
    exact proper.replaceLookaheads inBody (lt_size_of_resolveAll resolved)

/-- A call that succeeds keeps a grammar consistent and has its effect. -/
theorem settles_apply
    [CharacterData]
    (consistent : grammar.Consistent)
    {call : Call}
    {number : Nat}
    (applied : call.apply grammar = .ok (after, number)) :
    after.Consistent ∧ Effect grammar call number after := by
  cases call with
  | terminalText name text options =>
      obtain ⟨pattern, parsed, added⟩ := declareTerminalText_eq_ok applied
      exact settles_declareTerminal consistent ⟨pattern, parsed, rfl⟩ added
  | terminal name pattern options =>
      exact settles_declareTerminal consistent rfl applied
  | nonTerminal name =>
      exact settles_addSymbol consistent rfl (by simp) applied
  | rule head name body => exact settles_addRule consistent applied
  | reopen name =>
      obtain ⟨production, found, same⟩ := exists_ok_of_map applied
      obtain ⟨rfl, rfl⟩ := Prod.mk.inj same
      refine ⟨consistent, .found ?_⟩
      unfold resolveProduction at found
      split at found
      · next isFound => exact isFound.trans (congrArg some (Except.ok.inj found))
      · simp at found
  | shiftOn production names =>
      obtain ⟨_, changed, same⟩ := exists_ok_of_map applied
      obtain ⟨rfl, rfl⟩ := Prod.mk.inj same
      exact settles_addShiftOn consistent changed
  | reduceOn production names =>
      obtain ⟨_, changed, same⟩ := exists_ok_of_map applied
      obtain ⟨rfl, rfl⟩ := Prod.mk.inj same
      exact settles_addReduceOn consistent changed
  | lookaheads production marker names =>
      obtain ⟨_, changed, same⟩ := exists_ok_of_map applied
      obtain ⟨rfl, rfl⟩ := Prod.mk.inj same
      exact settles_overrideLookaheads consistent changed

/-! ## Calls one after another -/

variable [CharacterData]

/-- What a call does to a consistent grammar that is changed in place. -/
theorem settles_perform
    (consistent : grammar.Consistent)
    (call : Call) :
    (call.perform.on grammar).2.Consistent ∧
      match call.perform.on grammar with
      | (.ok number, after) => Effect grammar call number after
      | (.error _, after) => after = grammar := by
  rw [InPlace.on_perform]
  cases applied : call.apply grammar with
  | error error => exact ⟨consistent, rfl⟩
  | ok outcome => exact settles_apply consistent applied

/-- The grammar after some calls, those that fail included. -/
def afterCalls (grammar : Grammar) : List Call → Grammar
  | [] => grammar
  | call :: rest => (call.perform.on grammar).2.afterCalls rest

theorem Consistent.afterCalls
    (consistent : grammar.Consistent)
    (calls : List Call) :
    (grammar.afterCalls calls).Consistent := by
  induction calls generalizing grammar with
  | nil => exact consistent
  | cons call rest inductionHypothesis =>
      exact inductionHypothesis (settles_perform consistent call).1

/-- The same calls lead from the ledger of a grammar to the ledger of the grammar
after them. -/
theorem afterCalls_ofGrammar (grammar : Grammar) (calls : List Call) :
    (Ledger.ofGrammar grammar).afterCalls calls =
      Ledger.ofGrammar (grammar.afterCalls calls) := by
  induction calls generalizing grammar with
  | nil => rfl
  | cons call rest inductionHypothesis =>
      have after : ((Ledger.InPlace.perform call).on
          (Ledger.ofGrammar grammar)).2 =
            Ledger.ofGrammar (call.perform.on grammar).2 :=
        congrArg Prod.snd (Ledger.reflects_perform grammar call)
      rw [Ledger.afterCalls, after, inductionHypothesis, Grammar.afterCalls]

/-- Whatever calls were made to build a grammar and whichever of them failed,
the grammar is consistent and its symbols and productions are numbered in order
and found by their names. The next call, if it fails, leaves the grammar as it
is; if it succeeds, it adds one symbol or one production with the next number,
or finds a production, or changes the overrides of the named production. Where
records are kept with their numbers, the numbers are the places after the same
calls, and a call gives the same. -/
theorem calls_keep_consistent (anyCase : Bool) (calls : List Call) :
    let grammar := (Grammar.empty anyCase).afterCalls calls
    let ledger := (Ledger.empty anyCase).afterCalls calls
    grammar.Consistent ∧
      (∀ name symbol, grammar.symbol? name = some symbol ↔
        grammar.symbols[symbol]?.map Symbol.name = some name) ∧
      (∀ name production, grammar.production? name = some production ↔
        grammar.productions[production]?.map Production.name = some name) ∧
      (∀ call : Call, match call.perform.on grammar with
        | (.ok number, after) => Effect grammar call number after
        | (.error _, after) => after = grammar) ∧
      ledger.InStep ∧ ledger = Ledger.ofGrammar grammar ∧
      ∀ call : Call, (Ledger.InPlace.perform call).on ledger =
        ((call.perform.on grammar).1,
          Ledger.ofGrammar (call.perform.on grammar).2) := by
  intro grammar ledger
  have consistent : grammar.Consistent :=
    (Consistent.empty anyCase).afterCalls calls
  have isLedger : ledger = Ledger.ofGrammar grammar := by
    rw [← afterCalls_ofGrammar, ← Ledger.empty_eq]
  refine ⟨consistent, ?_, ?_, fun call => ?_, ?_, isLedger, fun call => ?_⟩
  · exact fun _ _ => consistent.symbol?_eq_some_iff
  · exact fun _ _ => consistent.production?_eq_some_iff
  · exact (settles_perform consistent call).2
  · rw [isLedger]
    exact Ledger.inStep_ofGrammar
  · rw [isLedger]
    exact Ledger.reflects_perform grammar call

end Grammar
end ParserGenerator
