import ParserGenerator.Grammar.Declare

/-!
# Errors in definitions

Why the text of a grammar definition is refused. An error may have a cause,
which is reported after it.
-/

namespace ParserGenerator

/-- Why a definition is refused. -/
inductive LoadError
  | missingSeparator
  | unrecognizedLine (line : Nat) (text : String)
  | unknownVariables (names : List String)
  | expansionTooDeep (text : String)
  | unknownFlag (flag : String) (line : Nat)
  | redeclaredTerminal (name : String) (line : Nat)
  | unknownDirective (text : String) (line : Nat)
  | unexpectedText (text : String) (line : Nat)
  | malformedStatement
  | terminal (line : Nat) (cause : DefinitionError)
  | symbol (cause : DefinitionError)
  | production (name : String) (cause : DefinitionError)
  | unknownStart (name : String)
  | shiftOn (production : String) (cause : DefinitionError)
  | reduceOn (production : String) (cause : DefinitionError)
  | noProductions
  deriving DecidableEq

variable [CharacterData]

/-- A refusal and its cause. -/
def DefinitionError.chain (error : DefinitionError) : List String :=
  match error with
  | .pattern _ cause => [error.message, cause.message]
  | _ => [error.message]

/-- The wording of an error and of its causes, the outermost first. -/
def LoadError.chain : LoadError → List String
  | missingSeparator =>
      ["Missing %% separator between terminal and production sections"]
  | unrecognizedLine line text =>
      [s!"Unrecognized line ({line}): {Text.quote text}"]
  | unknownVariables names =>
      ["Unknown variable(s): " ++ ", ".intercalate names]
  | expansionTooDeep text =>
      ["Variable expansion exceeded depth (possible cycle): " ++ text]
  | unknownFlag flag line =>
      [s!"Unknown terminal flag {Text.quote flag} at line {line}"]
  | redeclaredTerminal name line =>
      [s!"Terminal {Text.quote name} redeclared at line {line}"]
  | unknownDirective text line =>
      [s!"Unknown directive {Text.quote text} at line {line}"]
  | unexpectedText text line =>
      [s!"Unexpected {Text.quote text} at line {line}"]
  | malformedStatement => ["Syntax error in production section"]
  | terminal line cause => s!"Terminal at line {line}" :: cause.chain
  | symbol cause => cause.chain
  | production name cause => s!"In production {name}" :: cause.chain
  | unknownStart name => [s!"Unknown start symbol {Text.quote name}"]
  | shiftOn name cause => s!"In %shift_on {name}" :: cause.chain
  | reduceOn name cause => s!"In %reduce_on {name}" :: cause.chain
  | noProductions => ["Grammar has no productions"]

/-- The wording of an error with all its causes. -/
def LoadError.message (error : LoadError) : String :=
  ": ".intercalate error.chain

end ParserGenerator
