import Mathlib
import ParserGenerator.Proofs.Ascending
import ParserGenerator.Proofs.Definition.Naming

/-!
# Assembling a grammar

The terminals and non-terminals of a source are declared in order, then its
productions are added one after the other, and last their overrides are
collected. What has been added after some statements is what these statements
stand for.
-/

namespace ParserGenerator

/-! ## Looking up names -/

section Names

variable {Value : Type} {nameOf : Value → String} {values : Array Value}
  {name : String}

theorem findIdx?_eq_none_of_notMem
    (absent : name ∉ values.toList.map nameOf) :
    values.findIdx? (nameOf · == name) = none := by
  rw [Array.findIdx?_eq_none_iff]
  intro value member
  rw [beq_eq_false_iff_ne]
  rintro rfl
  exact absent (List.mem_map_of_mem (Array.mem_toList_iff.mpr member))

/-- A value is found at the place of its name. -/
theorem findIdx?_eq_idxOf
    (member : name ∈ values.toList.map nameOf) :
    values.findIdx? (nameOf · == name) =
      some ((values.toList.map nameOf).idxOf name) := by
  obtain ⟨values⟩ := values
  have inside := List.idxOf_lt_length_of_mem member
  rw [List.idxOf, List.findIdx_map, List.length_map] at inside
  rw [List.findIdx?_toArray, List.findIdx?_eq_guard_findIdx_lt,
    List.idxOf, List.findIdx_map]
  exact Option.guard_eq_some_iff.mpr ⟨rfl, decide_eq_true inside⟩

end Names

namespace Grammar

/-- The productions of a head are counted. -/
theorem length_productionsOf (grammar : Grammar) (head : SymbolId) :
    (grammar.productionsOf head).length =
      (grammar.productions.toList.map Production.head).count head := by
  obtain ⟨anyCase, symbols, ⟨rules⟩⟩ := grammar
  have counted (rules : List Production) :
      (List.range rules.length).countP (fun production =>
        (rules[production]?.map Production.head) == some head) =
          (rules.map Production.head).count head := by
    induction rules with
    | nil => rfl
    | cons rule rest inductionHypothesis =>
        rw [List.length_cons, List.range_succ_eq_map, List.countP_cons,
          List.countP_map, List.map_cons, List.count_cons,
          ← inductionHypothesis]
        rfl
  rw [productionsOf, ← List.countP_eq_length_filter]
  simpa using counted rules

end Grammar

namespace Text

/-- Letters without white space go on a word. -/
theorem wordsFrom_append
    {letters : List Char}
    (tight : ∀ letter ∈ letters, isBlank letter = false)
    (current rest : List Char) :
    wordsFrom current (letters ++ rest) =
      wordsFrom (letters.reverse ++ current) rest := by
  induction letters generalizing current with
  | nil => rfl
  | cons letter letters inductionHypothesis =>
      obtain ⟨notBlank, others⟩ := List.forall_mem_cons.mp tight
      rw [List.cons_append, wordsFrom, if_neg (by simp [notBlank]),
        inductionHypothesis others, List.reverse_cons, List.append_assoc,
        List.singleton_append]

/-- Words that are put together are found again. -/
theorem words_intercalate
    {names : List String}
    (nonempty : ∀ name ∈ names, name.toList ≠ [])
    (tight : ∀ name ∈ names, ∀ letter ∈ name.toList,
      isBlank letter = false) :
    words (" ".intercalate names) = names := by
  have space : " ".toList = [' '] := rfl
  rw [words, String.toList_intercalate, space]
  induction names with
  | nil => rfl
  | cons name rest inductionHypothesis =>
      obtain ⟨nonemptyHere, nonemptyThere⟩ := List.forall_mem_cons.mp nonempty
      obtain ⟨tightHere, tightThere⟩ := List.forall_mem_cons.mp tight
      have isWord := wordsFrom_append tightHere []
      have notEmpty : name.toList.reverse.isEmpty = false := by
        simpa using nonemptyHere
      cases rest with
      | nil =>
          rw [List.map_singleton, List.intercalate_singleton,
            ← List.append_nil name.toList, isWord, List.append_nil, wordsFrom,
            notEmpty, List.reverse_reverse, String.ofList_toList]
          rfl
      | cons next rest =>
          rw [List.map_cons, List.map_cons, List.intercalate_cons_cons,
            List.append_assoc, isWord, List.append_nil, List.singleton_append,
            wordsFrom, if_pos (by decide), notEmpty, List.reverse_reverse,
            String.ofList_toList, ← List.map_cons,
            inductionHypothesis nonemptyThere tightThere]
          rfl

end Text

namespace Definition

/-! ## Declaring symbols -/

theorem declareTerminals_eq
    [CharacterData]
    {grammar : Grammar}
    {lines : List TerminalLine}
    {terminals : List TerminalSource}
    (declares : List.Forall₂ TerminalLine.Declares lines terminals)
    (proper : ∀ terminal ∈ terminals, terminal.Proper)
    (distinct : (grammar.symbols.toList.map Symbol.name ++
      terminals.map TerminalSource.name).Nodup) :
    declareTerminals grammar lines = .ok { grammar with
      symbols := grammar.symbols ++
        (terminals.map TerminalSource.symbol).toArray } := by
  induction declares generalizing grammar with
  | nil => simp [declareTerminals]
  | @cons line terminal lines terminals declares _ inductionHypothesis =>
      obtain ⟨isProper, others⟩ := List.forall_mem_cons.mp proper
      have isNew : grammar.symbol? terminal.name = none := by
        refine findIdx?_eq_none_of_notMem fun member => ?_
        exact (List.nodup_append.mp distinct).2.2 _ member _
          List.mem_cons_self rfl
      have declared : grammar.declareTerminalText terminal.name terminal.text
          terminal.options = .ok ({ grammar with
            symbols := grammar.symbols.push terminal.symbol },
            grammar.symbols.size) := by
        simp [Grammar.declareTerminalText, Grammar.declareTerminal,
          Grammar.addSymbol, isNew, isProper.parsed, isProper.notNullable,
          TerminalSource.symbol]
      rw [declareTerminals, declares.name, declares.pattern, declares.options,
        declared]
      dsimp only
      rw [inductionHypothesis others]
      · simp
      · simpa [TerminalSource.symbol] using distinct

theorem declareNonTerminals_eq
    {grammar : Grammar}
    {names : List String}
    (distinct : (grammar.symbols.toList.map Symbol.name ++ names).Nodup) :
    declareNonTerminals grammar names = .ok { grammar with
      symbols := grammar.symbols ++
        (names.map (⟨·, .nonTerminal⟩ : String → Symbol)).toArray } := by
  induction names generalizing grammar with
  | nil => simp [declareNonTerminals]
  | cons name rest inductionHypothesis =>
      have isNew : grammar.symbol? name = none := by
        refine findIdx?_eq_none_of_notMem fun member => ?_
        exact (List.nodup_append.mp distinct).2.2 _ member _
          List.mem_cons_self rfl
      have declared : grammar.declareNonTerminal name = .ok ({ grammar with
          symbols := grammar.symbols.push ⟨name, .nonTerminal⟩ },
          grammar.symbols.size) := by
        simp [Grammar.declareNonTerminal, Grammar.addSymbol, isNew]
      rw [declareNonTerminals, declared]
      dsimp only
      rw [inductionHypothesis]
      · simp
      · simpa using distinct

/-! ## Looking up names -/

namespace Source

variable {source : Source} {name : String} {productions : List Production}

/-- The symbols of a source with some productions. -/
def grammarWith (source : Source) (productions : List Production) : Grammar :=
  ⟨source.anyCase, source.symbols.toArray, productions.toArray⟩

theorem symbol?_grammarWith
    (known : name ∈ source.symbols.map Symbol.name) :
    (source.grammarWith productions).symbol? name =
      some (source.number name) :=
  findIdx?_eq_idxOf known

theorem resolveAll_grammarWith
    {names : List String}
    (known : ∀ name ∈ names, name ∈ source.symbols.map Symbol.name) :
    (source.grammarWith productions).resolveAll names =
      .ok (names.map source.number) := by
  induction names with
  | nil => rfl
  | cons name rest inductionHypothesis =>
      obtain ⟨knownHere, knownThere⟩ := List.forall_mem_cons.mp known
      rw [Grammar.resolveAll, Grammar.resolve, symbol?_grammarWith knownHere]
      exact bind_of_ok rfl (bind_of_ok (inductionHypothesis knownThere) rfl)

theorem known_of_mem_nonTerminals
    (member : name ∈ source.nonTerminals) :
    name ∈ source.symbols.map Symbol.name := by
  rw [map_name_symbols]
  exact List.mem_append_right _ (List.mem_append_right _ member)

theorem known_of_mem_terminalNames
    (member : name ∈ source.terminalNames) :
    name ∈ source.symbols.map Symbol.name := by
  rw [map_name_symbols]
  rcases List.mem_append.mp member with isMarker | isTerminal
  · exact List.mem_append_left _ (List.mem_cons_of_mem _ isMarker)
  · exact List.mem_append_right _ (List.mem_append_left _ isTerminal)

variable [CharacterData]

/-- The names of symbols are words. -/
theorem Proper.isWord_of_known
    (proper : source.Proper)
    (known : name ∈ source.symbols.map Symbol.name) :
    name.toList ≠ [] ∧
      ∀ letter ∈ name.toList, Text.isBlank letter = false := by
  have ofWord {isStart : Char → Bool}
      (isWord : IsWord isStart isWordLetter name.toList)
      (startIsLetter : ∀ {letter}, isStart letter = true →
        isWordLetter letter = true) :
      name.toList ≠ [] ∧
        ∀ letter ∈ name.toList, Text.isBlank letter = false := by
    refine ⟨?_, fun letter member => isBlank_of_isWordLetter
      (isWord.letters startIsLetter letter member)⟩
    obtain ⟨first, letters, spelt, -⟩ := isWord
    rw [spelt]
    exact List.cons_ne_nil _ _
  rw [map_name_symbols] at known
  rcases List.mem_append.mp known with isStructural | isOther
  · have structural : ∀ name ∈ ["$end", "$nl", "$nonl"],
        name.toList ≠ [] ∧
          ∀ letter ∈ name.toList, Text.isBlank letter = false := by
      simp [Text.isBlank]
    exact structural name isStructural
  · rcases List.mem_append.mp isOther with isTerminal | isNonTerminal
    · obtain ⟨terminal, isDeclared, rfl⟩ := List.mem_map.mp isTerminal
      exact ofWord (proper.terminals terminal isDeclared).name
        isWordLetter_of_isLower
    · exact ofWord (proper.isUpperName isNonTerminal) isWordLetter_of_isUpper

/-- The number of a non-terminal is that of its symbol. -/
theorem Proper.symbol_number
    (proper : source.Proper)
    (member : name ∈ source.nonTerminals) :
    source.symbols[source.number name]? = some ⟨name, .nonTerminal⟩ := by
  have isSymbol : (⟨name, .nonTerminal⟩ : Symbol) ∈ source.symbols :=
    List.mem_append_right _ (List.mem_append_right _
      (List.mem_map_of_mem member))
  obtain ⟨index, inside, isIndex⟩ := List.mem_iff_getElem.mp isSymbol
  have isNumber := proper.nodup_symbolNames.idxOf_getElem index (by simpa)
  rw [List.getElem_map, isIndex] at isNumber
  rw [number, isNumber, List.getElem?_eq_getElem inside, isIndex]

end Source

/-! ## Productions -/

namespace Source

variable {source : Source}

/-- What the body of a production of a source refers to is declared. -/
theorem known_of_mem_body
    [CharacterData]
    {label : Option String}
    {head : String}
    {body : List Reference}
    (proper : source.Proper)
    (isStatement : .production label head body ∈ source.statements) :
    ∀ name ∈ body.map Reference.name,
      name ∈ source.symbols.map Symbol.name := by
  intro name member
  obtain ⟨reference, inBody, rfl⟩ := List.mem_map.mp member
  have isKnown := (proper.statements _ isStatement).2.2 reference inBody
  split at isKnown
  · next isNonTerminal =>
      refine known_of_mem_nonTerminals (mem_nonTerminals_iff.mpr (.inr ?_))
      refine List.mem_flatMap.mpr ⟨_, isStatement, ?_⟩
      exact List.mem_map_of_mem (List.mem_filter.mpr ⟨inBody, isNonTerminal⟩)
  · exact known_of_mem_terminalNames isKnown

theorem mem_nonTerminals_of_head
    {label : Option String}
    {head : String}
    {body : List Reference}
    (isStatement : .production label head body ∈ source.statements) :
    head ∈ source.nonTerminals :=
  mem_nonTerminals_iff.mpr (.inl (List.mem_filterMap.mpr
    ⟨_, isStatement, rfl⟩))

/-- Numbers tell names. -/
theorem number_beq
    {name other : String}
    (known : name ∈ source.symbols.map Symbol.name) :
    (source.number name == source.number other) = (name == other) := by
  rw [Bool.eq_iff_iff, beq_iff_eq, beq_iff_eq]
  exact List.idxOf_inj known

/-- The number of productions of a head so far. -/
theorem length_productionsOf_grammarWith
    {earlier : List Rule}
    (known : ∀ rule ∈ earlier, rule.head ∈ source.nonTerminals)
    (head : String) :
    ((source.grammarWith (earlier.map (source.production []))).productionsOf
      (source.number head)).length = (earlier.map Rule.head).count head := by
  rw [Grammar.length_productionsOf, grammarWith]
  dsimp only
  rw [List.map_map]
  induction earlier with
  | nil => rfl
  | cons rule rest inductionHypothesis =>
      obtain ⟨knownHere, knownThere⟩ := List.forall_mem_cons.mp known
      rw [List.map_cons, List.map_cons, List.count_cons, List.count_cons,
        inductionHypothesis knownThere]
      congr 2
      exact congrArg (· = true) (number_beq (known_of_mem_nonTerminals knownHere))

/-- A production is added as its statement says. -/
theorem addStatement_production
    [CharacterData]
    {earlier : List Rule}
    {label : Option String}
    {head : String}
    {body : List Reference}
    {start firstHead : Option SymbolId}
    {rule : Rule}
    (proper : source.Proper)
    (isStatement : .production label head body ∈ source.statements)
    (knownHeads : ∀ rule ∈ earlier, rule.head ∈ source.nonTerminals)
    (isRule : rule = ⟨head ++ ":" ++
      label.getD (toString ((earlier.map Rule.head).count head + 1)), head,
      body⟩)
    (isNew : rule.name ∉ earlier.map Rule.name) :
    addStatement
        ⟨source.grammarWith (earlier.map (source.production [])), start,
          firstHead⟩
        (.production label head body) =
      .ok ⟨source.grammarWith ((earlier ++ [rule]).map (source.production [])),
        start, firstHead <|> some (source.number head)⟩ := by
  have isNonTerminal := mem_nonTerminals_of_head isStatement
  have named : ruleName
      (source.grammarWith (earlier.map (source.production []))) head
      (source.number head) label = rule.name := by
    rw [isRule]
    cases label with
    | none =>
        rw [ruleName, length_productionsOf_grammarWith knownHeads]
        rfl
    | some label => rfl
  have isNewName : (source.grammarWith
      (earlier.map (source.production []))).production? rule.name = none := by
    refine findIdx?_eq_none_of_notMem fun member => isNew ?_
    simpa [grammarWith, production] using member
  have resolved : (source.grammarWith
      (earlier.map (source.production []))).resolveAll
        (Text.words (" ".intercalate (body.map Reference.name))) =
      .ok ((body.map Reference.name).map source.number) := by
    have known := known_of_mem_body proper isStatement
    rw [Text.words_intercalate
      (fun name member => (proper.isWord_of_known (known name member)).1)
      (fun name member => (proper.isWord_of_known (known name member)).2)]
    exact resolveAll_grammarWith known
  have added : (source.grammarWith
      (earlier.map (source.production []))).addRule (source.number head)
        rule.name (" ".intercalate (body.map Reference.name)) =
      .ok (source.grammarWith
        ((earlier ++ [rule]).map (source.production [])), earlier.length) := by
    have isSymbol : (source.grammarWith (earlier.map
        (source.production []))).symbols[source.number head]? =
          some ⟨head, .nonTerminal⟩ := by
      rw [grammarWith, List.getElem?_toArray]
      exact proper.symbol_number isNonTerminal
    rw [Grammar.addRule, isSymbol]
    dsimp only
    rw [if_neg (by simp [Symbol.isNonTerminal]), isNewName,
      if_neg (by simp)]
    refine bind_of_ok resolved ?_
    have isProduction : source.production [] rule =
        ⟨rule.name, source.number head,
          (body.map Reference.name).map source.number, [], [], []⟩ := by
      rw [isRule, production, List.map_map]
      rfl
    rw [List.map_append, List.map_singleton, isProduction]
    simp [grammarWith, pure, Except.pure]
  rw [addStatement, symbol?_grammarWith (known_of_mem_nonTerminals isNonTerminal)]
  dsimp only
  rw [named, added]

/-- The productions that statements add, and the goals that they name. -/
theorem foldlM_addStatement
    [CharacterData]
    {earlier : List Rule}
    {todo : List Statement}
    (proper : source.Proper)
    (isStatement : ∀ statement ∈ todo, statement ∈ source.statements)
    (knownHeads : ∀ rule ∈ earlier, rule.head ∈ source.nonTerminals)
    (distinct : ((earlier ++ rulesAfter (earlier.map Rule.head) todo).map
      Rule.name).Nodup)
    (start firstHead : Option SymbolId) :
    todo.foldlM addStatement
        ⟨source.grammarWith (earlier.map (source.production [])), start,
          firstHead⟩ =
      .ok ⟨source.grammarWith
          ((earlier ++ rulesAfter (earlier.map Rule.head) todo).map
            (source.production [])),
        ((starts todo).getLast?.map source.number) <|> start,
        firstHead <|> ((heads todo).head?.map source.number)⟩ := by
  induction todo generalizing earlier start firstHead with
  | nil => simp [rulesAfter, starts, heads, pure, Except.pure]
  | cons statement rest inductionHypothesis =>
      obtain ⟨isHere, isThere⟩ := List.forall_mem_cons.mp isStatement
      rw [List.foldlM_cons]
      cases statement with
      | production label head body =>
          obtain ⟨rule, isRule⟩ : ∃ rule : Rule, rule = ⟨head ++ ":" ++
              label.getD (toString ((earlier.map Rule.head).count head + 1)),
              head, body⟩ := ⟨_, rfl⟩
          have headsAfter : (earlier ++ [rule]).map Rule.head =
              earlier.map Rule.head ++ [head] := by
            rw [isRule, List.map_append]
            rfl
          rw [rulesAfter, ← isRule, ← headsAfter, List.append_cons]
            at distinct ⊢
          have isNew : rule.name ∉ earlier.map Rule.name := by
            rw [List.map_append, List.map_append] at distinct
            exact fun member => (List.nodup_append.mp
              (List.nodup_append.mp distinct).1).2.2 _ member _
                List.mem_cons_self rfl
          have knownAll : ∀ known ∈ earlier ++ [rule],
              known.head ∈ source.nonTerminals := by
            refine List.forall_mem_append.mpr
              ⟨knownHeads, List.forall_mem_singleton.mpr ?_⟩
            rw [isRule]
            exact mem_nonTerminals_of_head isHere
          refine bind_of_ok (addStatement_production proper isHere knownHeads
            isRule isNew) ?_
          rw [inductionHypothesis isThere knownAll distinct, heads, heads,
            List.filterMap_cons]
          cases firstHead <;> rfl
      | start head =>
          have isKnown : head ∈ source.symbols.map Symbol.name :=
            known_of_mem_nonTerminals (proper.statements _ isHere)
          have added : addStatement
              ⟨source.grammarWith (earlier.map (source.production [])), start,
                firstHead⟩ (.start head) =
              .ok ⟨source.grammarWith (earlier.map (source.production [])),
                some (source.number head), firstHead⟩ := by
            rw [addStatement, symbol?_grammarWith isKnown]
          refine bind_of_ok added ?_
          rw [inductionHypothesis isThere knownHeads distinct, starts, starts,
            List.filterMap_cons, List.getLast?_cons]
          cases (List.filterMap _ rest).getLast? <;> rfl
      | shiftOn production symbols | reduceOn production symbols =>
          exact bind_of_ok rfl
            (inductionHypothesis isThere knownHeads distinct start firstHead)

end Source

/-! ## Overrides -/

namespace Source

variable {source : Source}

/-- The productions of a source have different names. -/
theorem Proper.nodup_ruleNames
    [CharacterData]
    (proper : source.Proper) :
    (source.rules.map Rule.name).Nodup :=
  Definition.nodup_ruleNames proper.readableRules proper.labels []

theorem ascending_append (first second : List Nat) :
    mergeAscending (ascending first) (ascending second) =
      ascending (first ++ second) := by
  refine Ascends.eq_of_mem_iff
    (ascends_mergeAscending _ (ascends_ascending second))
    (ascends_ascending _) fun value => ?_
  simp

/-- A change of the production with a name leaves the others alone. -/
theorem modify_idxOf
    {rules : List Rule}
    {name : String}
    {before after : Rule → Production}
    {change : Production → Production}
    (distinct : (rules.map Rule.name).Nodup)
    (changed : ∀ rule, after rule =
      if name = rule.name then change (before rule) else before rule) :
    (rules.map before).modify ((rules.map Rule.name).idxOf name) change =
      rules.map after := by
  induction rules with
  | nil => simp
  | cons rule rest inductionHypothesis =>
      rw [List.map_cons, List.nodup_cons] at distinct
      obtain ⟨notLater, distinctLater⟩ := distinct
      rw [List.map_cons, List.map_cons, List.map_cons, changed rule]
      by_cases same : name = rule.name
      · subst same
        have others : rest.map after = rest.map before := by
          refine List.map_congr_left fun other member => ?_
          rw [changed other, if_neg]
          rintro same
          exact notLater (same ▸ List.mem_map_of_mem member)
        rw [List.idxOf_cons_self, List.modify_zero_cons, if_pos rfl, others]
      · rw [List.idxOf_cons_ne _ (Ne.symm same), List.modify_succ_cons,
          if_neg same, inductionHypothesis distinctLater]

theorem modifyProduction_grammarWith
    {rules : List Rule}
    {name : String}
    {before after : Rule → Production}
    {change : Production → Production}
    (distinct : (rules.map Rule.name).Nodup)
    (changed : ∀ rule, after rule =
      if name = rule.name then change (before rule) else before rule) :
    (source.grammarWith (rules.map before)).modifyProduction
        ((rules.map Rule.name).idxOf name) change =
      source.grammarWith (rules.map after) := by
  rw [Grammar.modifyProduction, grammarWith, grammarWith, List.modify_toArray,
    modify_idxOf distinct changed]

theorem production?_grammarWith
    {rules : List Rule}
    {done : List Statement}
    {name : String}
    (member : name ∈ rules.map Rule.name) :
    (source.grammarWith (rules.map (source.production done))).production? name =
      some ((rules.map Rule.name).idxOf name) := by
  have sameNames : (source.grammarWith
      (rules.map (source.production done))).productions.toList.map
        Production.name = rules.map Rule.name := by
    rw [grammarWith, List.map_map]
    rfl
  rw [← sameNames] at member ⊢
  exact findIdx?_eq_idxOf member

theorem shiftNames_append
    (first second : List Statement)
    (name : String) :
    shiftNames (first ++ second) name =
      shiftNames first name ++ shiftNames second name :=
  List.flatMap_append

theorem reduceNames_append
    (first second : List Statement)
    (name : String) :
    reduceNames (first ++ second) name =
      reduceNames first name ++ reduceNames second name :=
  List.flatMap_append

theorem production_append_of_none
    {statement : Statement}
    (noShift : ∀ name, shiftNames [statement] name = [])
    (noReduce : ∀ name, reduceNames [statement] name = [])
    (done : List Statement) :
    source.production (done ++ [statement]) = source.production done := by
  funext rule
  simp only [production, shiftNames_append, reduceNames_append, noShift,
    noReduce, List.append_nil]

/-- A directive adds to the symbols on which a shift wins over its
production. -/
theorem production_append_shiftOn
    (done : List Statement)
    (name : String)
    (symbols : List String)
    (rule : Rule) :
    source.production (done ++ [.shiftOn name symbols]) rule =
      if name = rule.name then
        { source.production done rule with
          shiftOn := mergeAscending (source.production done rule).shiftOn
            (ascending (symbols.map source.number)) }
      else
        source.production done rule := by
  have noReduce : reduceNames [.shiftOn name symbols] rule.name = [] := rfl
  have added : shiftNames [.shiftOn name symbols] rule.name =
      if name = rule.name then symbols else [] :=
    List.append_nil _
  simp only [production, shiftNames_append, reduceNames_append, noReduce, added,
    List.append_nil]
  split
  · rw [ascending_append, List.map_append]
  · rw [List.append_nil]

/-- A directive adds to the symbols on which its production wins. -/
theorem production_append_reduceOn
    (done : List Statement)
    (name : String)
    (symbols : List String)
    (rule : Rule) :
    source.production (done ++ [.reduceOn name symbols]) rule =
      if name = rule.name then
        { source.production done rule with
          reduceOn := mergeAscending (source.production done rule).reduceOn
            (ascending (symbols.map source.number)) }
      else
        source.production done rule := by
  have noShift : shiftNames [.reduceOn name symbols] rule.name = [] := rfl
  have added : reduceNames [.reduceOn name symbols] rule.name =
      if name = rule.name then symbols else [] :=
    List.append_nil _
  simp only [production, shiftNames_append, reduceNames_append, noShift, added,
    List.append_nil]
  split
  · rw [ascending_append, List.map_append]
  · rw [List.append_nil]

/-- The overrides of a statement are added to those of the statements before
it. -/
theorem addOverride_eq
    [CharacterData]
    {done : List Statement}
    {statement : Statement}
    (proper : source.Proper)
    (isStatement : statement ∈ source.statements) :
    addOverride
        (source.grammarWith (source.rules.map (source.production done)))
        statement =
      .ok (source.grammarWith
        (source.rules.map (source.production (done ++ [statement])))) := by
  have isProper := proper.statements statement isStatement
  have resolved {names : List String}
      (isKnown : ∀ name ∈ names, name ∈ source.terminalNames) :
      (source.grammarWith
        (source.rules.map (source.production done))).resolveAll names =
          .ok (names.map source.number) :=
    resolveAll_grammarWith fun name member =>
      known_of_mem_terminalNames (isKnown name member)
  cases statement with
  | production label head body | start head =>
      rw [production_append_of_none (fun _ => rfl) (fun _ => rfl)]
      rfl
  | shiftOn name symbols =>
      obtain ⟨isRule, -, isKnown⟩ := isProper
      have changed : (source.grammarWith (source.rules.map
          (source.production done))).addShiftOn
            ((source.rules.map Rule.name).idxOf name) symbols =
          .ok (source.grammarWith (source.rules.map
            (source.production (done ++ [.shiftOn name symbols])))) :=
        bind_of_ok (resolved isKnown) (congrArg Except.ok
          (modifyProduction_grammarWith proper.nodup_ruleNames
            (production_append_shiftOn done name symbols)))
      rw [addOverride, Grammar.resolveProduction, production?_grammarWith isRule]
      dsimp only
      rw [changed]
  | reduceOn name symbols =>
      obtain ⟨isRule, -, isKnown⟩ := isProper
      have changed : (source.grammarWith (source.rules.map
          (source.production done))).addReduceOn
            ((source.rules.map Rule.name).idxOf name) symbols =
          .ok (source.grammarWith (source.rules.map
            (source.production (done ++ [.reduceOn name symbols])))) :=
        bind_of_ok (resolved isKnown) (congrArg Except.ok
          (modifyProduction_grammarWith proper.nodup_ruleNames
            (production_append_reduceOn done name symbols)))
      rw [addOverride, Grammar.resolveProduction, production?_grammarWith isRule]
      dsimp only
      rw [changed]

theorem foldlM_addOverride
    [CharacterData]
    {done todo : List Statement}
    (proper : source.Proper)
    (isStatement : ∀ statement ∈ todo, statement ∈ source.statements) :
    todo.foldlM addOverride
        (source.grammarWith (source.rules.map (source.production done))) =
      .ok (source.grammarWith
        (source.rules.map (source.production (done ++ todo)))) := by
  induction todo generalizing done with
  | nil => simp [pure, Except.pure]
  | cons statement rest inductionHypothesis =>
      obtain ⟨isHere, isThere⟩ := List.forall_mem_cons.mp isStatement
      rw [List.foldlM_cons, List.append_cons]
      exact bind_of_ok (addOverride_eq proper isHere)
        (inductionHypothesis isThere)

end Source

end Definition
end ParserGenerator
