import ParserGenerator.Definition.Token

/-!
# Statements of the production section

Each line is a production, a directive, or empty.
-/

namespace ParserGenerator
namespace Definition

/-- A symbol in the body of a production. -/
structure Reference where
  /-- The name of the symbol. -/
  name : String
  /-- Whether it is written as a non-terminal. -/
  isNonTerminal : Bool
  deriving DecidableEq

/-- A statement of the production section. -/
inductive Statement
  | production (label : Option String) (head : String)
      (body : List Reference)
  | start (head : String)
  | shiftOn (production : String) (symbols : List String)
  | reduceOn (production : String) (symbols : List String)
  deriving DecidableEq

/-- The symbols that tokens stand for, if all of them stand for one. -/
def references? : List Token → Option (List Reference)
  | [] => some []
  | .terminal name :: rest => (references? rest).map (⟨name, false⟩ :: ·)
  | .nonTerminal name :: rest => (references? rest).map (⟨name, true⟩ :: ·)
  | _ => none

/-- The terminals that tokens stand for, if all of them stand for one. -/
def terminalNames? : List Token → Option (List String)
  | [] => some []
  | .terminal name :: rest => (terminalNames? rest).map (name :: ·)
  | _ => none

/-- The terminals of an override, of which there is at least one. -/
def overrideNames? (tokens : List Token) : Option (List String) :=
  if tokens.isEmpty then none else terminalNames? tokens

/-- The statement of a line that is not empty. -/
def statement? : List Token → Option Statement
  | .label label :: .nonTerminal head :: .arrow :: body =>
      (references? body).map (.production (some label) head)
  | .nonTerminal head :: .arrow :: body =>
      (references? body).map (.production none head)
  | [.start, .nonTerminal head] => some (.start head)
  | .shiftOn :: .productionName name :: symbols =>
      (overrideNames? symbols).map (.shiftOn name)
  | .reduceOn :: .productionName name :: symbols =>
      (overrideNames? symbols).map (.reduceOn name)
  | _ => none

/-- The statements of some lines. -/
def statements : List (List Token) → Except LoadError (List Statement)
  | [] => .ok []
  | [] :: rest => statements rest
  | line :: rest =>
      match statement? line with
      | none => .error .malformedStatement
      | some statement => do return statement :: (← statements rest)

end Definition
end ParserGenerator
