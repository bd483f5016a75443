import ParserGenerator.Grammar

/-!
# Tokens

The significant lexemes of a text. A token knows whether a line break came
before it; the end of the text is a token too.
-/

namespace ParserGenerator

/-- A significant lexeme. -/
structure Token where
  /-- The terminal, or the end of the source. -/
  symbol : SymbolId
  /-- The text of the lexeme. -/
  text : String
  /-- The offset of the lexeme in code units. -/
  position : Nat
  /-- Whether the text skipped before the token has a line break. -/
  lineBreakBefore : Bool
  deriving DecidableEq

namespace Token

/-- Whether the token is the end of the source. -/
def isEnd (token : Token) : Bool := token.symbol == Grammar.endSymbol

/-- The marker that may stand before the token. -/
def marker (token : Token) : SymbolId :=
  if token.lineBreakBefore then
    Grammar.lineBreakSymbol
  else
    Grammar.noLineBreakSymbol

/-- The token as errors name it. -/
def description (grammar : Grammar) (token : Token) : String :=
  if token.isEnd then "end of input" else grammar.name token.symbol

end Token
end ParserGenerator
