import ParserGenerator.Calculator
import ParserGenerator.CommandLine.Arguments
import ParserGenerator.Dump
import ParserGenerator.Stream.Utf8Reader

/-!
# Commands

What the commands write and how they end. One command lists the tables of a
grammar definition; the others evaluate statements that are given as an
argument or in a file.
-/

open ParserGenerator.Parse ParserGenerator.Stream

namespace ParserGenerator
namespace CommandLine

/-- What is listed besides a summary. -/
structure Listing where
  /-- Whether productions are listed. -/
  productions : Bool
  /-- Whether parser states are listed. -/
  states : Bool
  /-- Whether lexical states are listed. -/
  lexer : Bool
  deriving DecidableEq

/-- A command. -/
inductive Command
  /-- List the tables of the definition in a file. -/
  | list (path : String) (listing : Listing)
  /-- Evaluate statements. -/
  | evaluate (statements : String)
  /-- Evaluate the statements in a file through a window. -/
  | evaluateFile (path : String) (capacity : Nat)
  deriving DecidableEq

namespace Command

/-- The options of the command that lists tables. -/
def listFlags : List Flag :=
  [⟨'g', "grammar", true⟩, ⟨'p', "productions", false⟩,
    ⟨'s', "states", false⟩, ⟨'l', "lexer", false⟩]

/-- The command that lists tables. -/
def ofListWords? (words : List String) : Option Command := do
  let arguments ← Arguments.ofWords? listFlags words
  let path ← arguments.value? 'g'
  guard arguments.operands.isEmpty
  return .list path
    ⟨arguments.has 'p', arguments.has 's', arguments.has 'l'⟩

/-- The options of the command that evaluates a file. -/
def fileFlags : List Flag := [⟨'b', "buffer", true⟩]

/-- A capacity; it has no minus sign, not even before a zero. -/
def capacity? (text : String) : Option Nat := do
  guard (text.toList.head? != some '-')
  let number ← (Integer.read text).toOption
  return number.toNat

/-- A command that evaluates statements. -/
def ofCalculatorWords? : List String → Option Command
  | "eval" :: words => do
      match (← Arguments.ofWords? [] words).operands with
      | [statements] => some (.evaluate statements)
      | _ => none
  | "file" :: words => do
      let arguments ← Arguments.ofWords? fileFlags words
      let capacity ← match arguments.value? 'b' with
        | none => some Options.standard.capacity
        | some text => capacity? text
      match arguments.operands with
      | [path] => some (.evaluateFile path capacity)
      | _ => none
  | _ => none

/-- The file that a command reads. -/
def path? : Command → Option String
  | list path _ => some path
  | evaluate _ => none
  | evaluateFile path _ => some path

end Command

/-- What a command writes and how it ends. -/
structure Outcome where
  /-- The exit code. -/
  code : Nat
  /-- What it writes to the standard output. -/
  output : String
  /-- What it writes to the standard error. -/
  errors : String
  deriving DecidableEq

namespace Outcome

/-- A command that succeeds. -/
def success (output : String) : Outcome := ⟨0, output, ""⟩

/-- A command that cannot be understood. -/
def misused : Outcome := ⟨2, "", "error: invalid arguments\n"⟩

/-- The lines of a cause, each indented. -/
def indented (first other : String) (cause : String) : List String :=
  (Text.lines cause).zipIdx.map fun (line, index) =>
    (if index = 0 then first else other) ++ String.ofList line

/-- The lines of the causes of an error; several causes are numbered. -/
def causes : List String → List String
  | [cause] => indented "    " "    " cause
  | several => several.zipIdx.flatMap fun (cause, index) =>
      indented s!"    {index}: " "       " cause

/-- A command that fails, with the wording of the error and its causes. -/
def failure : List String → Outcome
  | [] => ⟨1, "", ""⟩
  | [message] => ⟨1, "", s!"Error: {message}\n"⟩
  | message :: behind =>
      ⟨1, "", Dump.joinLines
        (s!"Error: {message}" :: "" :: "Caused by:" :: causes behind)⟩

end Outcome

/-- The wording of a file that is not there. -/
def noSuchFile : String := "No such file or directory (os error 2)"

variable [CharacterData]

/-- List the tables of a definition. -/
def list (path : String) (listing : Listing) (content : Option (List UInt8)) :
    Outcome :=
  let unreadable (cause : String) :=
    Outcome.failure [s!"Failed to read {path}", cause]
  match content with
  | none => unreadable noSuchFile
  | some bytes =>
      match Text.ofBytes? bytes with
      | none => unreadable SourceError.malformed.message
      | some text =>
          match Definition.load text with
          | .error error => .failure error.chain
          | .ok definition =>
              let grammar := definition.grammar
              match (Table.construct grammar definition.goal none).result with
              | .error error =>
                  .failure [s!"Cannot build parser states for {path}",
                    error.message]
              | .ok table => .success (listed grammar table)
where
  /-- The listings that were asked for and the summary. -/
  listed (grammar : Grammar) (table : Table) : String :=
    let automaton := grammar.automaton
    (if listing.productions then Dump.productions grammar ++ "\n" else "") ++
      (if listing.states then Dump.parserStates grammar table else "") ++
      (if listing.lexer then Dump.lexicalStates grammar automaton else "") ++
      s!"{path}: {grammar.terminals.length} terminals, " ++
      s!"{grammar.productions.size} productions, " ++
      s!"{table.states.size} parser states, " ++
      s!"{automaton.states.size} lexical states\n"

/-- The results of statements, one to a line. -/
def resultLines (results : List (Option Int)) : String :=
  Dump.joinLines <| results.map fun
    | some number => s!"{number}"
    | none => "-"

/-- The end of an evaluation; `before` is the wording that comes before that
of an error. -/
def evaluated (before : List String) :
    Option Calculator.Evaluation → Outcome
  | none => .failure (before ++ ["too many steps"])
  | some evaluation =>
      match evaluation.result with
      | .ok results => .success (resultLines results)
      | .error error => .failure (before ++ Explained.chain error)

/-- Evaluate statements. -/
def evaluate (statements : String) : Outcome :=
  match Calculator.create Options.standard with
  | .error error => .failure [error.message]
  | .ok calculator =>
      evaluated [] <|
        calculator.evaluateText ampleSteps Calculator.SymbolTable.empty
          statements

/-- Evaluate the statements in a file. -/
def evaluateFile (path : String) (capacity : Nat)
    (content : Option (List UInt8)) : Outcome :=
  match Calculator.create { Options.standard with capacity } with
  | .error error => .failure [error.message]
  | .ok calculator =>
      match content with
      | none => .failure [s!"can't open {path}", noSuchFile]
      | some bytes =>
          let deliveries := if bytes.isEmpty then [] else [.bytes bytes]
          evaluated [s!"while evaluating {path}"] <|
            calculator.evaluate ampleSteps Calculator.SymbolTable.empty
              (Utf8Reader.ofDeliveries deliveries true)

/-- Run a command. The content is that of the file that it reads, if there is
such a file. -/
def run (command : Command) (content : Option (List UInt8)) : Outcome :=
  match command with
  | .list path listing => list path listing content
  | .evaluate statements => evaluate statements
  | .evaluateFile path capacity => evaluateFile path capacity content

end CommandLine
end ParserGenerator
