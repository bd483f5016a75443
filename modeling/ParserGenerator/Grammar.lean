import ParserGenerator.Ascending
import ParserGenerator.Pattern

/-!
# Grammars

A grammar has symbols and productions, both numbered in the order of their
declaration. The first three symbols are the end of the source and the two
markers for the presence and the absence of a line break. A production may
override how conflicts with it are decided and which symbols may follow the
symbols of its body.
-/

namespace ParserGenerator

/-- The number of a symbol. -/
abbrev SymbolId := Nat

/-- The number of a production. -/
abbrev ProductionId := Nat

/-- A set of symbols in ascending order. -/
abbrev SymbolSet := List SymbolId

/-- How a terminal is matched and used. -/
structure TerminalOptions where
  /-- Whether the shortest match is taken instead of the longest. -/
  isLazy : Bool
  /-- Whether the terminal is skipped between tokens. -/
  isTrivia : Bool
  deriving DecidableEq

/-- The kinds of symbols. -/
inductive SymbolKind
  | terminal (pattern : Pattern) (options : TerminalOptions)
  | nonTerminal
  | endOfSource
  | lineBreak
  | noLineBreak

/-- A symbol of a grammar. -/
structure Symbol where
  /-- The name by which productions refer to the symbol. -/
  name : String
  /-- What the symbol is. -/
  kind : SymbolKind

namespace Symbol

/-- Whether the symbol is defined by productions. -/
def isNonTerminal (symbol : Symbol) : Bool :=
  match symbol.kind with
  | .nonTerminal => true
  | _ => false

/-- The pattern of a terminal. -/
def pattern? (symbol : Symbol) : Option Pattern :=
  match symbol.kind with
  | .terminal pattern _ => some pattern
  | _ => none

/-- The options of a terminal; no other symbol has any. -/
def options (symbol : Symbol) : TerminalOptions :=
  match symbol.kind with
  | .terminal _ options => options
  | _ => ⟨false, false⟩

end Symbol

/-- A production of a grammar. -/
structure Production where
  /-- The unique name. -/
  name : String
  /-- The non-terminal that is defined. -/
  head : SymbolId
  /-- The symbols it is replaced by. -/
  body : List SymbolId
  /-- The symbols on which a shift wins over this production. -/
  shiftOn : SymbolSet
  /-- The symbols on which this production wins. -/
  reduceOn : SymbolSet
  /-- The symbols that may follow a symbol of the body, where they are not
  to be computed. -/
  lookaheadOverrides : List (SymbolId × SymbolSet)
  deriving DecidableEq

/-- A grammar under construction or complete. -/
structure Grammar where
  /-- Whether letters of terminals match in either case. -/
  anyCase : Bool
  /-- The symbols, addressed by number. -/
  symbols : Array Symbol
  /-- The productions, addressed by number. -/
  productions : Array Production

namespace Grammar

/-- The symbol at the end of the source. -/
def endSymbol : SymbolId := 0

/-- The marker of a line break before the next token. -/
def lineBreakSymbol : SymbolId := 1

/-- The marker of no line break before the next token. -/
def noLineBreakSymbol : SymbolId := 2

/-- The grammar with nothing but the three structural symbols. -/
def empty (anyCase : Bool) : Grammar :=
  ⟨anyCase,
    #[⟨"$end", .endOfSource⟩, ⟨"$nl", .lineBreak⟩, ⟨"$nonl", .noLineBreak⟩],
    #[]⟩

instance : Inhabited Grammar := ⟨empty false⟩

/-- The number of the symbol with the given name. -/
def symbol? (grammar : Grammar) (name : String) : Option SymbolId :=
  grammar.symbols.findIdx? (·.name == name)

/-- The number of the production with the given name. -/
def production? (grammar : Grammar) (name : String) : Option ProductionId :=
  grammar.productions.findIdx? (·.name == name)

/-- The name of a symbol; a question mark if there is no such symbol. -/
def name (grammar : Grammar) (symbol : SymbolId) : String :=
  (grammar.symbols[symbol]?.map Symbol.name).getD "?"

/-- Whether a number is that of a non-terminal. -/
def isNonTerminal (grammar : Grammar) (symbol : SymbolId) : Bool :=
  (grammar.symbols[symbol]?.map Symbol.isNonTerminal).getD false

/-- The numbers of the productions of a non-terminal. -/
def productionsOf (grammar : Grammar) (head : SymbolId) :
    List ProductionId :=
  (List.range grammar.productions.size).filter fun production =>
    (grammar.productions[production]?.map Production.head) == some head

/-- The numbers of the terminals in the order of their declaration. -/
def terminals (grammar : Grammar) : List SymbolId :=
  (List.range grammar.symbols.size).filter fun symbol =>
    (grammar.symbols[symbol]?.bind Symbol.pattern?).isSome

/-- A production as its head, an arrow and its body. -/
def displayProduction (grammar : Grammar) (production : Production) :
    String :=
  " ".intercalate
    ((grammar.name production.head ++ " ->") ::
      production.body.map grammar.name)

end Grammar

/-- The symbols that may follow a symbol of a production's body, if they are
overridden. -/
def Production.lookaheadOverride? (production : Production)
    (marker : SymbolId) : Option SymbolSet :=
  production.lookaheadOverrides.lookup marker

end ParserGenerator
