import ParserGenerator.Parse.Bindings
import ParserGenerator.Parse.Decision
import ParserGenerator.Parse.Error

/-!
# Configurations

The stack of a parser with the context of its handlers, and what a decision
makes of them. The stack starts in the first state; each frame on it holds a
recognised symbol, its value, and the state after it.
-/

namespace ParserGenerator
namespace Parse

/-- A recognised symbol on the stack. -/
structure Frame (Value : Type) where
  /-- The state after the symbol. -/
  state : Nat
  /-- The symbol. -/
  symbol : SymbolId
  /-- The value of the symbol. -/
  value : Option Value
  deriving DecidableEq

/-- The state of a parser between two decisions. -/
structure Configuration (Context Value : Type) where
  /-- The stack, the topmost frame first. -/
  frames : List (Frame Value)
  /-- Whether a marker was shifted before the next token. -/
  markerShifted : Bool
  /-- The context of the handlers. -/
  context : Context
  deriving DecidableEq

namespace Configuration

variable {Context Value : Type}

/-- The configuration before the first token. -/
def start (context : Context) : Configuration Context Value :=
  ⟨[], false, context⟩

/-- The state on top of the stack. -/
def state (configuration : Configuration Context Value) : Nat :=
  match configuration.frames with
  | [] => 0
  | frame :: _ => frame.state

/-- The symbols on the stack, the lowest first. -/
def symbols (configuration : Configuration Context Value) : List SymbolId :=
  (configuration.frames.map Frame.symbol).reverse

/-- The names of the symbols on the stack. -/
def stack (grammar : Grammar) (configuration : Configuration Context Value) :
    String :=
  " ".intercalate (configuration.symbols.map grammar.name)

end Configuration

/-- What a decision leads to. -/
inductive Outcome (Context Failure Value : Type)
  /-- The token is still to be decided about. -/
  | kept (configuration : Configuration Context Value)
  /-- The token was shifted. -/
  | consumed (configuration : Configuration Context Value)
  /-- The goal was recognised; its value. -/
  | accepted (value : Option Value)
      (configuration : Configuration Context Value)
  /-- The parse failed. -/
  | failed (cause : Cause Failure)
      (configuration : Configuration Context Value)
  deriving DecidableEq

namespace Configuration

variable {Context Failure Value : Type}

/-- Shift a marker; it has no value. -/
def shiftMarker (configuration : Configuration Context Value) (target : Nat)
    (marker : SymbolId) : Configuration Context Value :=
  { configuration with
    frames := ⟨target, marker, none⟩ :: configuration.frames
    markerShifted := true }

/-- Shift a token with the value that its handler gives. -/
def shift (bindings : Bindings Context Failure Value)
    (configuration : Configuration Context Value) (target : Nat)
    (token : Token) : Outcome Context Failure Value :=
  match bindings.token token.symbol token.text configuration.context with
  | (.ok value, context) =>
      .consumed
        ⟨⟨target, token.symbol, value⟩ :: configuration.frames, false,
          context⟩
  | (.error failure, context) =>
      .failed (.handler failure) { configuration with context }

/-- Go over to the state after the head of a production that was popped. -/
def goto (rules : Table.Rules) (table : Table)
    (configuration : Configuration Context Value)
    (production : ProductionId) (value : Option Value) :
    Outcome Context Failure Value :=
  let missing := .failed (.noGoto (rules.headName production)) configuration
  match rules.head? production with
  | none => missing
  | some head =>
      match table.goto configuration.state head with
      | none => missing
      | some target =>
          .kept { configuration with
            frames := ⟨target, head, value⟩ :: configuration.frames }

/-- Replace the body of a production on the stack by its head, with the value
that its handler gives. -/
def reduce (rules : Table.Rules) (table : Table)
    (bindings : Bindings Context Failure Value)
    (configuration : Configuration Context Value)
    (production : ProductionId) : Outcome Context Failure Value :=
  let size := (rules.body production).length
  let popped := configuration.frames.take size
  if popped.length < size then
    .failed .stackUnderflow configuration
  else
    let below := configuration.frames.drop size
    let values : Values Value := ⟨(popped.map Frame.value).reverse⟩
    match bindings.reduce production values configuration.context with
    | (.error failure, context) =>
        .failed (.handler failure)
          { configuration with frames := below, context }
    | (.ok value, context) =>
        goto rules table { configuration with frames := below, context }
          production value

/-- The value of the goal. -/
def goalValue (configuration : Configuration Context Value) : Option Value :=
  match configuration.frames with
  | [] => none
  | frame :: _ => frame.value

/-- Carry out a decision about a token. -/
def perform (rules : Table.Rules) (table : Table)
    (bindings : Bindings Context Failure Value)
    (configuration : Configuration Context Value) (token : Token) :
    Decision → Outcome Context Failure Value
  | .shiftMarker target marker =>
      .kept (configuration.shiftMarker target marker)
  | .shift target => configuration.shift bindings target token
  | .reduce production =>
      configuration.reduce rules table bindings production
  | .accept => .accepted configuration.goalValue configuration
  | .reject =>
      .failed (.unexpectedToken (token.description rules.grammar))
        configuration

/-- The decision about a token in a configuration. -/
def decision (table : Table) (configuration : Configuration Context Value)
    (token : Token) : Decision :=
  Decision.make table configuration.state configuration.markerShifted token

/-- Decide about a token and carry it out. -/
def step (rules : Table.Rules) (table : Table)
    (bindings : Bindings Context Failure Value)
    (configuration : Configuration Context Value) (token : Token) :
    Outcome Context Failure Value :=
  configuration.perform rules table bindings token
    (configuration.decision table token)

end Configuration
end Parse
end ParserGenerator
