/-!
# The language of the calculator

Statements divided by semicolons. The grammar of expressions is ambiguous;
the precedence of the operators decides.
-/

namespace ParserGenerator
namespace Calculator

/-- The lines that define the terminals. -/
def terminalLines : List String :=
  ["-- Statements divided by semicolons.",
    "DIGIT = [0-9]",
    "WORD = [\\p\x7bL\x7d\\p\x7bNd\x7d_]",
    "number: \x7b\x7bDIGIT\x7d\x7d+",
    "ident: [\\p\x7bL\x7d_]\x7b\x7bWORD\x7d\x7d*",
    "plus: \\+",
    "minus: -",
    "asterisk: \\*",
    "slash: /",
    "equals: =",
    "leftParen: \\(",
    "rightParen: \\)",
    "semicolon: ;",
    "ws: <skip> [ \\t\\r\\n]+",
    "comment: <skip> //[^\\n]*"]

/-- The lines that define the productions. -/
def productionLines : List String :=
  ["%start Program",
    "Program -> Stats",
    "more: Stats -> Stats ; Stat",
    "one: Stats -> Stat",
    "empty: Stat ->",
    "expr: Stat -> Expr",
    "assign: Stat -> ident = Expr",
    "number: Expr -> number",
    "ident: Expr -> ident",
    "add: Expr -> Expr + Expr",
    "sub: Expr -> Expr - Expr",
    "mul: Expr -> Expr * Expr",
    "div: Expr -> Expr / Expr",
    "neg: Expr -> - Expr",
    "paren: Expr -> ( Expr )"]

/-- The definition of the grammar of the calculator. -/
def language : String :=
  "\n".intercalate (terminalLines ++ "%%" :: productionLines)

end Calculator
end ParserGenerator
