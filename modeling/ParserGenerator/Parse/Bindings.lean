import ParserGenerator.Grammar
import ParserGenerator.Text.Quoted

/-!
# Bindings

Handlers that give values to tokens and to reduced productions. A handler
changes the context that is passed along and gives a value or fails. A token
without a handler has no value; a production without a handler takes the
first value there is in its body.
-/

namespace ParserGenerator
namespace Parse

/-- The values of the symbols of a body; some have none. -/
structure Values (Value : Type) where
  /-- The values in the order of the symbols. -/
  items : List (Option Value)
  deriving DecidableEq

/-- A value that was asked for and is not there. -/
structure AbsentValue where
  /-- The place that was asked for. -/
  index : Nat
  /-- The number of places. -/
  size : Nat
  deriving DecidableEq

/-- The wording of the error. -/
def AbsentValue.message (absent : AbsentValue) : String :=
  s!"no value at position {absent.index} of {absent.size}"

namespace Values

variable {Value : Type}

/-- The number of places. -/
def size (values : Values Value) : Nat := values.items.length

/-- The value at a place. -/
def get? (values : Values Value) (index : Nat) : Option Value :=
  (values.items[index]?).join

/-- The value at a place, which is then gone. -/
def take (values : Values Value) (index : Nat) :
    Except AbsentValue (Value × Values Value) :=
  match values.get? index with
  | some value => .ok (value, ⟨values.items.set index none⟩)
  | none => .error ⟨index, values.size⟩

/-- The values at some places, each of which is then gone. -/
def takeAll (values : Values Value) :
    List Nat → Except AbsentValue (List Value)
  | [] => .ok []
  | index :: rest => do
      let (value, others) ← values.take index
      return value :: (← others.takeAll rest)

/-- The first value there is. -/
def first? (values : Values Value) : Option Value :=
  values.items.findSome? id

end Values

/-- Gives a value to the text of a token. -/
abbrev TokenHandler (Context Failure Value : Type) :=
  String → Context → Except Failure Value × Context

/-- Gives a value to a production from the values of its body. -/
abbrev ReduceHandler (Context Failure Value : Type) :=
  Values Value → Context → Except Failure Value × Context

/-- The handlers of a grammar. -/
structure Bindings (Context Failure Value : Type) where
  /-- The handlers of terminals; the first one for a terminal counts. -/
  tokens : List (SymbolId × TokenHandler Context Failure Value)
  /-- The handlers of productions; the first one for a production counts. -/
  reductions : List (ProductionId × ReduceHandler Context Failure Value)

/-- A name that a handler cannot be bound to. -/
inductive BindError
  | unknownTerminal (name : String)
  | unknownProduction (name : String)
  deriving DecidableEq

/-- The wording of an error. -/
def BindError.message [CharacterData] : BindError → String
  | unknownTerminal name =>
      s!"terminal {Text.quote name} is not declared"
  | unknownProduction name =>
      s!"production {Text.quote name} is not declared"

namespace Bindings

variable {Context Failure Value : Type}

/-- No handlers. -/
def empty : Bindings Context Failure Value := ⟨[], []⟩

/-- Bind a handler to a terminal, in place of an earlier one. -/
def onToken (bindings : Bindings Context Failure Value) (grammar : Grammar)
    (name : String) (handler : TokenHandler Context Failure Value) :
    Except BindError (Bindings Context Failure Value) :=
  match (grammar.symbol? name).filter grammar.terminals.contains with
  | some symbol =>
      .ok { bindings with tokens := (symbol, handler) :: bindings.tokens }
  | none => .error (.unknownTerminal name)

/-- Bind a handler to a production, in place of an earlier one. -/
def onReduce (bindings : Bindings Context Failure Value) (grammar : Grammar)
    (name : String) (handler : ReduceHandler Context Failure Value) :
    Except BindError (Bindings Context Failure Value) :=
  match grammar.production? name with
  | some production =>
      .ok { bindings with
        reductions := (production, handler) :: bindings.reductions }
  | none => .error (.unknownProduction name)

/-- The value of a token. -/
def token (bindings : Bindings Context Failure Value) (symbol : SymbolId)
    (text : String) (context : Context) :
    Except Failure (Option Value) × Context :=
  match bindings.tokens.lookup symbol with
  | none => (.ok none, context)
  | some handler =>
      let (result, after) := handler text context
      (result.map some, after)

/-- The value of a production. -/
def reduce (bindings : Bindings Context Failure Value)
    (production : ProductionId) (values : Values Value) (context : Context) :
    Except Failure (Option Value) × Context :=
  match bindings.reductions.lookup production with
  | none => (.ok values.first?, context)
  | some handler =>
      let (result, after) := handler values context
      (result.map some, after)

end Bindings
end Parse
end ParserGenerator
