import Mathlib
import ParserGenerator.Calculator.Actions
import ParserGenerator.Token

/-!
# Programs of the calculator

What the calculator is to compute, apart from its grammar and its table:
expressions and statements, the tokens that spell them, and their values. Each
level of operators associates to the left and the sign binds tightest.
-/

namespace ParserGenerator
namespace Calculator

/-! ## Syntax -/

/-- An operator between two expressions. -/
inductive Operator
  | add
  | subtract
  | multiply
  | divide
  deriving DecidableEq

/-- An expression; parentheses leave no trace. -/
inductive Expression
  | number (text : String)
  | name (text : String)
  | negation (operand : Expression)
  | binary (operator : Operator) (left right : Expression)
  deriving DecidableEq

/-- A statement. The result of an empty one is nothing. -/
inductive Statement
  | empty
  | expression (expression : Expression)
  | assignment (name : String) (expression : Expression)
  deriving DecidableEq

/-- What an expression consists of: summands, factors of a product, or neither
without parentheses. -/
inductive Level
  | factor
  | product
  | sum
  deriving DecidableEq

namespace Operator

/-- The terminal of an operator. -/
def terminal : Operator → String
  | add => "plus"
  | subtract => "minus"
  | multiply => "asterisk"
  | divide => "slash"

/-- The level of the expressions that an operator makes, which is also that of
its left side. -/
def level : Operator → Level
  | add | subtract => .sum
  | multiply | divide => .product

/-- The level of the right side of an operator. -/
def rightLevel : Operator → Level
  | add | subtract => .product
  | multiply | divide => .factor

end Operator

/-- The tokens that spell an expression of some level. A sum is a product, or a
sum, `+` or `-`, and a product; a product is a factor, or a product, `*` or `/`,
and a factor; a factor is a number, a name, a factor after `-`, or a sum between
parentheses. -/
inductive Expression.Spells (grammar : Grammar) :
    Level → Expression → List Token → Prop
  | number
      {token : Token}
      (isNumber : grammar.name token.symbol = "number") :
      Spells grammar .factor (.number token.text) [token]
  | name
      {token : Token}
      (isName : grammar.name token.symbol = "ident") :
      Spells grammar .factor (.name token.text) [token]
  | negation
      {sign : Token}
      {operand : Expression}
      {tokens : List Token}
      (isSign : grammar.name sign.symbol = "minus")
      (spells : Spells grammar .factor operand tokens) :
      Spells grammar .factor (.negation operand) (sign :: tokens)
  | parentheses
      {left right : Token}
      {inner : Expression}
      {tokens : List Token}
      (isLeft : grammar.name left.symbol = "leftParen")
      (isRight : grammar.name right.symbol = "rightParen")
      (spells : Spells grammar .sum inner tokens) :
      Spells grammar .factor inner (left :: tokens ++ [right])
  | factor
      {expression : Expression}
      {tokens : List Token}
      (spells : Spells grammar .factor expression tokens) :
      Spells grammar .product expression tokens
  | product
      {expression : Expression}
      {tokens : List Token}
      (spells : Spells grammar .product expression tokens) :
      Spells grammar .sum expression tokens
  | binary
      {operator : Operator}
      {token : Token}
      {left right : Expression}
      {leftTokens rightTokens : List Token}
      (isOperator : grammar.name token.symbol = operator.terminal)
      (leftSpells : Spells grammar operator.level left leftTokens)
      (rightSpells : Spells grammar operator.rightLevel right rightTokens) :
      Spells grammar operator.level (.binary operator left right)
        (leftTokens ++ token :: rightTokens)

/-- The tokens that spell a statement. -/
inductive Statement.Spells (grammar : Grammar) :
    Statement → List Token → Prop
  | empty : Spells grammar .empty []
  | expression
      {expression : Expression}
      {tokens : List Token}
      (spells : expression.Spells grammar .sum tokens) :
      Spells grammar (.expression expression) tokens
  | assignment
      {name equals : Token}
      {expression : Expression}
      {tokens : List Token}
      (isName : grammar.name name.symbol = "ident")
      (isEquals : grammar.name equals.symbol = "equals")
      (spells : expression.Spells grammar .sum tokens) :
      Spells grammar (.assignment name.text expression)
        (name :: equals :: tokens)

/-- Statements one after the other. -/
abbrev Program := List Statement

/-- The tokens that spell statements divided by semicolons, of which there is at
least one. -/
inductive Program.Spells (grammar : Grammar) : Program → List Token → Prop
  | single
      {statement : Statement}
      {tokens : List Token}
      (spells : statement.Spells grammar tokens) :
      Spells grammar [statement] tokens
  | more
      {statement : Statement}
      {program : Program}
      {divider : Token}
      {tokens others : List Token}
      (isDivider : grammar.name divider.symbol = "semicolon")
      (spells : statement.Spells grammar tokens)
      (rest : Spells grammar program others) :
      Spells grammar (statement :: program) (tokens ++ divider :: others)

/-! ## Values -/

/-- The values of variables. -/
abbrev Environment := String → Option Int

/-- A number if it is a signed integer of 64 bits. -/
def bounded (number : Int) : Except Failure Int :=
  if -2 ^ 63 ≤ number ∧ number < 2 ^ 63 then
    .ok number
  else
    .error .overflow

/-- The value of an operator. A quotient is rounded toward zero. -/
def Operator.apply : Operator → Int → Int → Except Failure Int
  | add, left, right => bounded (left + right)
  | subtract, left, right => bounded (left - right)
  | multiply, left, right => bounded (left * right)
  | divide, left, right =>
      if right = 0 then .error .divisionByZero else bounded (left.tdiv right)

/-- The value of an expression. Operands are evaluated from left to right before
their operator, and the first failure counts. -/
def Expression.value (environment : Environment) :
    Expression → Except Failure Int
  | .number text =>
      match Integer.read text with
      | .ok integer => .ok integer
      | .error error => .error (.integer error)
  | .name text =>
      match environment text with
      | some integer => .ok integer
      | none => .error (.symbol (.unassigned text))
  | .negation operand => do
      let integer ← operand.value environment
      bounded (-integer)
  | .binary operator left right => do
      let leftInteger ← left.value environment
      let rightInteger ← right.value environment
      operator.apply leftInteger rightInteger

/-- The result of a statement and the variables after it. -/
def Statement.result (environment : Environment) :
    Statement → Except Failure (Option Int × Environment)
  | .empty => .ok (none, environment)
  | .expression inner => do
      let integer ← inner.value environment
      return (some integer, environment)
  | .assignment name inner => do
      let integer ← inner.value environment
      return (some integer, Function.update environment name (some integer))

/-- The results of the statements of a program up to the first failure, and the
variables after the statements that succeed. -/
def Program.run (environment : Environment) :
    Program → Except Failure (List (Option Int)) × Environment
  | [] => (.ok [], environment)
  | statement :: rest =>
      match statement.result environment with
      | .error failure => (.error failure, environment)
      | .ok (result, after) =>
          let (results, last) := Program.run after rest
          (results.map (result :: ·), last)

end Calculator
end ParserGenerator
