import ParserGenerator.Table.Conflict

/-!
# Operator precedence

The policy that gives the operators of the calculator their precedence.
Operators of one level associate to the left and the sign binds tightest.
-/

namespace ParserGenerator
namespace Calculator

/-- How tightly a symbol binds as a binary operator. -/
def bindingStrength (grammar : Grammar) (symbol : SymbolId) : Nat :=
  match grammar.name symbol with
  | "plus" => 1
  | "minus" => 1
  | "asterisk" => 2
  | "slash" => 2
  | _ => 0

/-- How tightly a production binds its operands. -/
def productionStrength (grammar : Grammar) (production : Production) : Nat :=
  match production.body with
  | [sign, _] => if grammar.name sign = "minus" then 3 else 0
  | [_, operator, _] => bindingStrength grammar operator
  | _ => 0

/-- Shift only if the next symbol binds more tightly than the production. -/
def precedence : Table.Resolver where
  onShift grammar symbol production :=
    let reducing :=
      (grammar.productions[production]?.map
        (productionStrength grammar)).getD 0
    if reducing < bindingStrength grammar symbol then .shift else .reduce
  onCore _ _ _ := none

end Calculator
end ParserGenerator
