import ParserGenerator.Grammar.Automaton

/-!
# Lexicons

The terminals of a grammar as a scanner uses them: the automaton, and for
each of its terminals the symbol and whether it is skipped.
-/

namespace ParserGenerator

/-- The terminals of a grammar and their automaton. -/
structure Lexicon where
  /-- The automaton of all terminals. -/
  automaton : Lexical.Automaton
  /-- The symbols of the terminals, in the order of the automaton. -/
  symbols : Array SymbolId
  /-- Which terminals are skipped, in the order of the automaton. -/
  trivia : Array Bool

namespace Lexicon

/-- Whether a symbol of a grammar is skipped. -/
def isTriviaSymbol (grammar : Grammar) (symbol : SymbolId) : Bool :=
  grammar.symbols[symbol]?.any fun entry => entry.options.isTrivia

/-- The lexicon of a grammar. -/
def ofGrammar [CharacterData] (grammar : Grammar) : Lexicon where
  automaton := grammar.automaton
  symbols := grammar.terminals.toArray
  trivia := (grammar.terminals.map (isTriviaSymbol grammar)).toArray

/-- The symbol of a terminal of the automaton. -/
def symbol (lexicon : Lexicon) (terminal : Nat) : SymbolId :=
  lexicon.symbols[terminal]?.getD Grammar.endSymbol

/-- Whether a terminal of the automaton is skipped. -/
def isTrivia (lexicon : Lexicon) (terminal : Nat) : Bool :=
  lexicon.trivia[terminal]?.getD false

end Lexicon
end ParserGenerator
