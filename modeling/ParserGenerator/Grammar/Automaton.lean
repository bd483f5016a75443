import ParserGenerator.Grammar
import ParserGenerator.Lexical.Automaton

/-!
# The automaton of a grammar

All terminals of a grammar compiled into one automaton, in the order of their
declaration.
-/

namespace ParserGenerator
namespace Grammar

/-- The pattern of a symbol for the automaton. -/
def lexicalTerminal? (symbol : Symbol) : Option Lexical.Terminal :=
  match symbol.kind with
  | .terminal pattern options => some ⟨pattern, options.isLazy⟩
  | _ => none

/-- The patterns of the terminals in the order of their declaration. -/
def lexicalTerminals (grammar : Grammar) : List Lexical.Terminal :=
  grammar.symbols.toList.filterMap lexicalTerminal?

/-- The automaton that recognises the terminals of a grammar. -/
def automaton [CharacterData] (grammar : Grammar) : Lexical.Automaton :=
  Lexical.Automaton.build grammar.lexicalTerminals grammar.anyCase

end Grammar
end ParserGenerator
