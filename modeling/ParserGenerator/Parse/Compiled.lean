import ParserGenerator.Lexicon
import ParserGenerator.Table

/-!
# Compiled grammars

A grammar with all that a parser needs: the table for one goal and the
lexicon of the terminals. Compiled grammars can be kept under a key, so that
each is built only once.
-/

namespace ParserGenerator
namespace Parse

/-- A grammar with its table and lexicon. -/
structure Compiled where
  /-- The grammar and the goal. -/
  rules : Table.Rules
  /-- The table for the goal. -/
  table : Table
  /-- The terminals. -/
  lexicon : Lexicon

/-- Why a grammar cannot be compiled. -/
inductive CompileError
  | unknownGoal (name : String)
  | table (error : Table.TableError)
  deriving DecidableEq

/-- The wording of an error. -/
def CompileError.message [CharacterData] : CompileError → String
  | unknownGoal name => s!"goal symbol {Text.quote name} is not declared"
  | table error => error.message

/-- A compiled grammar, or the reason why there is none, and what happened
before. -/
structure Compilation where
  /-- What happened while the table was built. -/
  events : List Table.Event
  /-- The outcome. -/
  result : Except CompileError Compiled

namespace Compiled

/-- The grammar. -/
def grammar (compiled : Compiled) : Grammar := compiled.rules.grammar

/-- The name of the goal. -/
def goalName (compiled : Compiled) : String :=
  compiled.grammar.name compiled.rules.goal

/-- The number of states of the parser. -/
def stateCount (compiled : Compiled) : Nat := compiled.table.states.size

/-- The number of states of the automaton. -/
def lexicalStateCount (compiled : Compiled) : Nat :=
  compiled.lexicon.automaton.states.size

/-- Compile a grammar for the goal with the given name. Without a resolver
every conflict that overrides leave open is an error. -/
def compile [CharacterData] (grammar : Grammar) (goal : String)
    (resolver : Option Table.Resolver) : Compilation :=
  match grammar.symbol? goal with
  | none => ⟨[], .error (.unknownGoal goal)⟩
  | some symbol =>
      let built := Table.construct grammar symbol resolver
      match built.result with
      | .error error => ⟨built.events, .error (.table error)⟩
      | .ok table =>
          ⟨built.events,
            .ok ⟨⟨grammar, symbol⟩, table, Lexicon.ofGrammar grammar⟩⟩

end Compiled

/-- Compiled grammars under keys. -/
structure Library where
  /-- The grammars with their keys. -/
  entries : List (String × Compiled)

namespace Library

/-- The library without grammars. -/
def empty : Library := ⟨[]⟩

/-- The number of grammars. -/
def size (library : Library) : Nat := library.entries.length

/-- Whether there are no grammars. -/
def isEmpty (library : Library) : Bool := library.entries.isEmpty

/-- The grammar under a key. -/
def find? (library : Library) (key : String) : Option Compiled :=
  library.entries.lookup key

/-- The grammar under a key, which is built if there is none. A failure is
not kept. -/
def findOrCompile {Failure : Type} (library : Library) (key : String)
    (build : Unit → Except Failure Compiled) :
    Except Failure Compiled × Library :=
  match library.find? key with
  | some compiled => (.ok compiled, library)
  | none =>
      match build () with
      | .ok compiled => (.ok compiled, ⟨(key, compiled) :: library.entries⟩)
      | .error failure => (.error failure, library)

end Library
end Parse
end ParserGenerator
