import ParserGenerator.Parse.Event
import ParserGenerator.Scanner

/-!
# Runs

A parse from the first unit to a value or an error. A run scans a token when
it needs one, refills the window when the scanner needs more, and otherwise
decides about the token. Since handlers of tables with arbitrary conflict
resolution may reduce forever, the number of steps is limited by the caller.
-/

open ParserGenerator.Stream

namespace ParserGenerator
namespace Parse

/-- How a parser reads its input. -/
structure Options where
  /-- The capacity that a window starts with. -/
  capacity : Nat
  /-- Whether errors tell lines and columns. -/
  trackLines : Bool
  deriving DecidableEq

/-- The usual way of reading. -/
def Options.standard : Options := ⟨4096, true⟩

/-- A grammar with handlers, ready to parse. -/
structure Parser (Context Failure Value : Type) where
  /-- The grammar with its table and lexicon. -/
  compiled : Compiled
  /-- The handlers. -/
  bindings : Bindings Context Failure Value
  /-- How the input is read. -/
  options : Options

/-- What a parse amounted to. -/
structure Statistics where
  /-- The number of tokens with the end of the source. -/
  tokens : Nat
  /-- The number of lexemes that were skipped. -/
  trivia : Nat
  /-- The number of tokens that were shifted. -/
  shifts : Nat
  /-- The number of productions that were reduced. -/
  reductions : Nat
  /-- How often pending units were moved to the front of the window. -/
  windowShifts : Nat
  deriving DecidableEq

/-- The end of a parse. -/
structure Report (Context Failure Value : Type) where
  /-- The value of the goal, or why there is none. -/
  result : Except (ParseError Failure) (Option Value)
  /-- The context that the handlers left. -/
  context : Context
  /-- What the parse amounted to. -/
  statistics : Statistics
  /-- What happened, in order. -/
  events : List (Event Value)

/-- A parse under way. -/
structure Run (Supply Context Value : Type) where
  /-- The scanner. -/
  scanner : Scanner
  /-- The window that the scanner looks at. -/
  window : Window
  /-- Where the window is refilled from. -/
  supply : Supply
  /-- The token that was scanned and not shifted. -/
  token : Option Token
  /-- The stack and the context of the handlers. -/
  configuration : Configuration Context Value
  /-- The number of tokens so far. -/
  tokens : Nat
  /-- The number of shifts so far. -/
  shifts : Nat
  /-- The number of reductions so far. -/
  reductions : Nat
  /-- What happened so far, the latest first. -/
  events : List (Event Value)

/-- A run after one more step. -/
inductive Progress (Supply Context Failure Value : Type)
  | ongoing (run : Run Supply Context Value)
  | finished (report : Report Context Failure Value)

namespace Run

variable {Supply Context Failure Value : Type}

/-- A run before its first step. -/
def start (options : Options) (window : Window) (supply : Supply)
    (context : Context) : Run Supply Context Value where
  scanner := Scanner.start options.trackLines
  window := window
  supply := supply
  token := none
  configuration := Configuration.start context
  tokens := 0
  shifts := 0
  reductions := 0
  events := []

/-- What a run amounts to. -/
def statistics (run : Run Supply Context Value) : Statistics :=
  ⟨run.tokens, run.scanner.triviaSkipped, run.shifts, run.reductions,
    run.window.shifts⟩

/-- End a run. -/
def finish (run : Run Supply Context Value)
    (result : Except (ParseError Failure) (Option Value)) :
    Progress Supply Context Failure Value :=
  .finished
    ⟨result, run.configuration.context, run.statistics, run.events.reverse⟩

/-- End a run with an error. -/
def fail (run : Run Supply Context Value) (cause : Cause Failure)
    (position : Nat) (lexeme stack : String) :
    Progress Supply Context Failure Value :=
  run.finish <|
    .error ⟨cause, position, run.scanner.location position, lexeme, stack⟩

/-- Add an event. -/
def note (run : Run Supply Context Value) (event : Event Value) :
    Run Supply Context Value :=
  { run with events := event :: run.events }

/-- Refill the window. -/
def refill [Source Supply] (compiled : Compiled)
    (run : Run Supply Context Value) :
    Progress Supply Context Failure Value :=
  let (result, window, supply) := run.window.fill run.supply
  let refilled := { run with window, supply }
  let noted :=
    if run.window.capacity < window.capacity then
      refilled.note (.grown window.capacity)
    else
      refilled
  match result with
  | .ok _ => .ongoing noted
  | .error error =>
      noted.fail (.source error) window.position ""
        (run.configuration.stack compiled.grammar)

/-- Scan the next token or refill the window. An error tells nothing about
the stack. -/
def scanToken [CharacterData] [Source Supply] (compiled : Compiled)
    (run : Run Supply Context Value) :
    Progress Supply Context Failure Value :=
  let (scan, scanner, window) := run.scanner.scan compiled.lexicon run.window
  let scanned := { run with scanner, window }
  match scan with
  | .needInput => scanned.refill compiled
  | .unrecognized lexeme =>
      scanned.fail .unrecognizedInput window.position lexeme ""
  | .token token =>
      let counted :=
        { scanned with token := some token, tokens := run.tokens + 1 }
      .ongoing (if token.isEnd then counted else counted.note (.scanned token))

/-- Decide about a token. -/
def actOn (parser : Parser Context Failure Value)
    (run : Run Supply Context Value) (token : Token) :
    Progress Supply Context Failure Value :=
  let rules := parser.compiled.rules
  let table := parser.compiled.table
  let decision := run.configuration.decision table token
  let noted :=
    (run.note (.considered run.configuration.frames token)).note
      (.decided decision)
  match run.configuration.perform rules table parser.bindings token
      decision with
  | .kept configuration =>
      let reduced := match decision with
        | .reduce _ => 1
        | _ => 0
      .ongoing { noted with
        configuration
        reductions := run.reductions + reduced }
  | .consumed configuration =>
      .ongoing { noted with
        configuration
        token := none
        shifts := run.shifts + 1 }
  | .accepted value configuration =>
      { noted with configuration }.finish (.ok value)
  | .failed cause configuration =>
      { noted with configuration }.fail cause token.position token.text
        (configuration.stack rules.grammar)

/-- One step of a run. -/
def advance [CharacterData] [Source Supply]
    (parser : Parser Context Failure Value)
    (run : Run Supply Context Value) :
    Progress Supply Context Failure Value :=
  match run.token with
  | none => run.scanToken parser.compiled
  | some token => run.actOn parser token

/-- The end of a run, if it comes within the given number of steps. -/
def complete [CharacterData] [Source Supply]
    (parser : Parser Context Failure Value) :
    (fuel : Nat) → Run Supply Context Value →
      Option (Report Context Failure Value)
  | 0, _ => none
  | fuel + 1, run =>
      match run.advance parser with
      | .ongoing next => next.complete parser fuel
      | .finished report => some report

end Run

namespace Parser

variable {Supply Context Failure Value : Type} [CharacterData]

/-- Parse a stream through a window, in at most the given number of steps. -/
def parse [Source Supply] (parser : Parser Context Failure Value)
    (fuel : Nat) (context : Context) (supply : Supply) :
    Option (Report Context Failure Value) :=
  (Run.start parser.options (Window.ofCapacity parser.options.capacity)
    supply context).complete parser fuel

/-- Parse units that are all in the window, in at most the given number of
steps. -/
def parseUnits (parser : Parser Context Failure Value) (fuel : Nat)
    (context : Context) (units : List CodeUnit) :
    Option (Report Context Failure Value) :=
  (Run.start parser.options (Window.ofUnits units) (InMemory.mk [])
    context).complete parser fuel

/-- Parse a text that is all in the window, in at most the given number of
steps. -/
def parseText (parser : Parser Context Failure Value) (fuel : Nat)
    (context : Context) (text : String) :
    Option (Report Context Failure Value) :=
  parser.parseUnits fuel context (Text.encode text)

end Parser

/-- A number of steps that no parse comes near. -/
def ampleSteps : Nat := 0x1000000000000000

end Parse

/-- The error that ends a scan. -/
def Scanner.Tokens.error? {Failure : Type} (tokens : Scanner.Tokens) :
    Option (Parse.ParseError Failure) :=
  tokens.unrecognized.map fun lexeme =>
    let position := tokens.window.position
    ⟨.unrecognizedInput, position, tokens.scanner.location position, lexeme,
      ""⟩

end ParserGenerator
