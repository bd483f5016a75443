import ParserGenerator.Fixpoint
import ParserGenerator.Table.Rules

/-!
# First sets

For each symbol, whether it derives the empty sequence and which terminals
and markers its derivations can start with. Both are found by passes over the
productions until nothing changes.
-/

namespace ParserGenerator
namespace Table

/-- First symbols and nullability of every symbol. -/
structure FirstSets where
  /-- The terminals and markers that derivations of a symbol start with. -/
  first : Array SymbolSet
  /-- Whether a symbol derives the empty sequence. -/
  nullable : Array Bool
  deriving DecidableEq

namespace FirstSets

/-- The first symbols of a symbol. -/
def firstOf (sets : FirstSets) (symbol : SymbolId) : SymbolSet :=
  sets.first[symbol]?.getD []

/-- Whether a symbol is known to derive the empty sequence. -/
def isNullable (sets : FirstSets) (symbol : SymbolId) : Bool :=
  sets.nullable[symbol]?.getD false

/-- The first symbols of a sequence, and whether it derives the empty
sequence. -/
def leading (sets : FirstSets) : List SymbolId → SymbolSet × Bool
  | [] => ([], true)
  | symbol :: rest =>
      if sets.isNullable symbol then
        let (others, nullable) := sets.leading rest
        (mergeAscending (sets.firstOf symbol) others, nullable)
      else
        (sets.firstOf symbol, false)

/-- The first symbols of a sequence followed by one of `tail`. -/
def leadingBefore (sets : FirstSets) (symbols : List SymbolId)
    (tail : SymbolSet) : SymbolSet :=
  let (found, nullable) := sets.leading symbols
  if nullable then mergeAscending found tail else found

/-- What one production adds to the sets of its head. -/
def addProduction (sets : FirstSets) (production : Production) : FirstSets :=
  let (found, nullable) := sets.leading production.body
  { first := sets.first.modify production.head (mergeAscending · found)
    nullable := sets.nullable.modify production.head (· || nullable) }

/-- One pass over the productions. -/
def pass (grammar : Grammar) (sets : FirstSets) : FirstSets :=
  grammar.productions.foldl addProduction sets

/-- Terminals and markers start with themselves. -/
def initial (grammar : Grammar) : FirstSets :=
  { first := ((List.range grammar.symbols.size).map fun symbol =>
      if grammar.isNonTerminal symbol then [] else [symbol]).toArray
    nullable := Array.replicate grammar.symbols.size false }

/-- The sets of a grammar. Each pass but the last adds a member to a set or
finds a symbol nullable, which bounds their number. -/
def ofGrammar (grammar : Grammar) : FirstSets :=
  let count := grammar.symbols.size
  (settle (pass grammar) (count * (count + 1) + 1) (initial grammar)).value

end FirstSets
end Table
end ParserGenerator
