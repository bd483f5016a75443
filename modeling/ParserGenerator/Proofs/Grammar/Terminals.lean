import ParserGenerator.Lexicon
import ParserGenerator.Proofs.Grammar.Declaring

/-!
# The terminals of a grammar

The automaton of a grammar numbers its terminals in the order of their
declaration, and a scanner finds the symbol of a terminal and whether it is
skipped by the same number. No declared terminal is nullable.
-/

namespace ParserGenerator
namespace Grammar

variable {grammar after : Grammar}

/-- A terminal of the automaton is the pattern of a symbol. -/
structure Numbers (grammar : Grammar) (terminal : Nat) (symbol : SymbolId)
    (pattern : Pattern) (options : TerminalOptions) : Prop where
  isSymbol : grammar.terminals[terminal]? = some symbol
  declares : ∃ name, grammar.symbols[symbol]? =
    some (Symbol.mk name (.terminal pattern options))
  isPattern : grammar.lexicalTerminals[terminal]? =
    some ⟨pattern, options.isLazy⟩

/-! ## The order of declaration -/

theorem isSome_pattern? (symbol : Symbol) :
    symbol.pattern?.isSome = (lexicalTerminal? symbol).isSome := by
  unfold Symbol.pattern? lexicalTerminal?
  cases symbol.kind <;> rfl

theorem filterMap_range
    {First Second : Type}
    (choose : First → Option Second)
    (items : List First) :
    ((List.range items.length).filterMap fun index =>
      items[index]?.bind choose) = items.filterMap choose := by
  induction items with
  | nil => rfl
  | cons item rest inductionHypothesis =>
      rw [List.length_cons, List.range_succ_eq_map, List.filterMap_cons,
        List.filterMap_map, List.filterMap_cons, ← inductionHypothesis]
      rfl

/-- The terminals are the symbols that have patterns for the automaton, in the
same order. -/
theorem map_terminals :
    (grammar.terminals.map fun symbol =>
      grammar.symbols[symbol]?.bind lexicalTerminal?) =
      grammar.lexicalTerminals.map some := by
  rw [lexicalTerminals, ← filterMap_range,
    List.map_filterMap_some_eq_filter_map_isSome, List.filter_map, terminals]
  simp only [Array.length_toList, Array.getElem?_toList]
  congr 1
  refine List.filter_congr fun symbol _ => ?_
  rw [Function.comp_apply]
  cases grammar.symbols[symbol]? with
  | none => rfl
  | some entry => exact isSome_pattern? entry

theorem exists_numbers
    {terminal : Nat}
    {entry : Lexical.Terminal}
    (isTerminal : grammar.lexicalTerminals[terminal]? = some entry) :
    ∃ symbol options, grammar.Numbers terminal symbol entry.pattern options := by
  have aligned : (grammar.terminals.map fun symbol =>
      grammar.symbols[symbol]?.bind lexicalTerminal?)[terminal]? =
        some (some entry) := by
    rw [map_terminals, List.getElem?_map, isTerminal, Option.map_some]
  rw [List.getElem?_map, Option.map_eq_some_iff] at aligned
  obtain ⟨symbol, isSymbol, isEntry⟩ := aligned
  obtain ⟨⟨name, kind⟩, declares, isEntry⟩ := Option.bind_eq_some_iff.mp isEntry
  cases kind with
  | terminal pattern options =>
      obtain rfl := Option.some.inj isEntry
      exact ⟨symbol, options, isSymbol, ⟨name, declares⟩, isTerminal⟩
  | _ => cases isEntry

/-! ## What a scanner knows about a terminal -/

namespace Numbers

variable {terminal : Nat} {symbol : SymbolId} {pattern : Pattern}
  {options : TerminalOptions} [CharacterData]

theorem symbol_lexicon
    (numbers : grammar.Numbers terminal symbol pattern options) :
    (Lexicon.ofGrammar grammar).symbol terminal = symbol := by
  simp [Lexicon.symbol, Lexicon.ofGrammar, numbers.isSymbol]

theorem isTrivia_lexicon
    (numbers : grammar.Numbers terminal symbol pattern options) :
    (Lexicon.ofGrammar grammar).isTrivia terminal = options.isTrivia := by
  obtain ⟨name, declares⟩ := numbers.declares
  simp [Lexicon.isTrivia, Lexicon.ofGrammar, numbers.isSymbol,
    Lexicon.isTriviaSymbol, declares, Symbol.options]

omit [CharacterData] in
/-- The end of the source is not the symbol of a terminal. -/
theorem symbol_ne_endSymbol
    (numbers : grammar.Numbers terminal symbol pattern options)
    (wellFormed : grammar.WellFormed) :
    symbol ≠ endSymbol := by
  rintro rfl
  exact (wellFormed.markers endSymbol (by decide)).2
    (List.mem_of_getElem? numbers.isSymbol)

end Numbers

/-! ## Declared terminals -/

/-- No terminal of the grammar is nullable. -/
def NoneNullable (grammar : Grammar) : Prop :=
  ∀ terminal ∈ grammar.lexicalTerminals, terminal.pattern.isNullable = false

theorem NoneNullable.addSymbol
    {name : String}
    {kind : SymbolKind}
    {symbol : SymbolId}
    (none : grammar.NoneNullable)
    (added : grammar.addSymbol name kind = .ok (after, symbol))
    (notNullable : ∀ pattern options, kind = .terminal pattern options →
      pattern.isNullable = false) :
    after.NoneNullable := by
  unfold Grammar.addSymbol at added
  split at added
  · simp at added
  obtain ⟨rfl, -⟩ := Prod.mk.inj (Except.ok.inj added)
  intro terminal member
  simp only [lexicalTerminals, Array.toList_push, List.filterMap_append,
    List.mem_append] at member
  rcases member with member | member
  · exact none terminal member
  · cases kind with
    | terminal pattern options =>
        obtain rfl : terminal = ⟨pattern, options.isLazy⟩ := by
          simpa [lexicalTerminal?] using member
        exact notNullable pattern options rfl
    | _ => simp [lexicalTerminal?] at member

/-- Declarations keep nullable terminals out. -/
theorem Declared.noneNullable (declared : grammar.Declared) :
    grammar.NoneNullable := by
  induction declared with
  | empty anyCase =>
      simp [NoneNullable, lexicalTerminals, Grammar.empty, lexicalTerminal?]
  | @terminal grammar after name pattern options symbol _ added
      inductionHypothesis =>
      unfold declareTerminal at added
      split at added
      · simp at added
      split at added
      · simp at added
      next notNullable =>
      refine inductionHypothesis.addSymbol added fun _ _ same => ?_
      obtain ⟨rfl, -⟩ := SymbolKind.terminal.inj same
      simpa using notNullable
  | nonTerminal _ added inductionHypothesis =>
      exact inductionHypothesis.addSymbol added (by simp)
  | @rule grammar after head name body production _ added
      inductionHypothesis =>
      unfold addRule at added
      split at added
      · simp at added
      split at added
      · simp at added
      split at added
      · simp at added
      obtain ⟨symbols, -, added⟩ := exists_ok_of_bind added
      obtain ⟨rfl, -⟩ := Prod.mk.inj (Except.ok.inj added)
      exact inductionHypothesis
  | @shiftOn grammar after production names _ changed inductionHypothesis =>
      unfold addShiftOn at changed
      obtain ⟨symbols, -, changed⟩ := exists_ok_of_bind changed
      obtain rfl := Except.ok.inj changed
      exact inductionHypothesis
  | @reduceOn grammar after production names _ changed inductionHypothesis =>
      unfold addReduceOn at changed
      obtain ⟨symbols, -, changed⟩ := exists_ok_of_bind changed
      obtain rfl := Except.ok.inj changed
      exact inductionHypothesis
  | lookaheads _ changed inductionHypothesis =>
      unfold overrideLookaheads at changed
      obtain ⟨symbol, -, changed⟩ := exists_ok_of_bind changed
      obtain ⟨symbols, -, changed⟩ := exists_ok_of_bind changed
      split at changed
      · obtain rfl := Except.ok.inj changed
        exact inductionHypothesis
      split at changed
      · simp [throw, throwThe, MonadExceptOf.throw] at changed
      obtain rfl := Except.ok.inj changed
      exact inductionHypothesis

end Grammar
end ParserGenerator
