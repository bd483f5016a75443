import ParserGenerator.Stream.LineCounter
import ParserGenerator.Stream.Source
import ParserGenerator.Text.Quoted

/-!
# Parse errors

Why a parse ends without a value, where, and what had been recognised by
then.
-/

open ParserGenerator.Stream

namespace ParserGenerator
namespace Parse

/-- Failures that can be put into words. -/
class Explained (Failure : Type) where
  /-- The wording of a failure and of its causes, the outermost first. -/
  chain : Failure → List String

/-- Why a parse fails. -/
inductive Cause (Failure : Type)
  /-- A token that cannot come next. -/
  | unexpectedToken (description : String)
  /-- Text that no terminal matches. -/
  | unrecognizedInput
  /-- A handler failed. -/
  | handler (failure : Failure)
  /-- The source failed. -/
  | source (error : SourceError)
  /-- The stack has fewer symbols than a production that is reduced. -/
  | stackUnderflow
  /-- The table has no transition over the head of a reduced production. -/
  | noGoto (head : String)
  deriving DecidableEq

namespace Cause

variable {Failure : Type} [Explained Failure]

/-- The wording of what is behind a cause, the outermost first. -/
def behind : Cause Failure → List String
  | handler failure => Explained.chain failure
  | source error => [error.message]
  | _ => []

/-- The wording of a cause. -/
def message : Cause Failure → String
  | unexpectedToken description => s!"unexpected {description}"
  | unrecognizedInput => "unrecognized input"
  | handler failure =>
      "action failed: " ++ ": ".intercalate (Explained.chain failure)
  | source error => s!"input error: {error.message}"
  | stackUnderflow => "internal error: parser stack underflow"
  | noGoto head => s!"internal error: no goto on {head}"

end Cause

/-- A failed parse. -/
structure ParseError (Failure : Type) where
  /-- Why it failed. -/
  cause : Cause Failure
  /-- The offset at which it failed, in code units. -/
  position : Nat
  /-- The line and column, if lines are tracked. -/
  location : Option Position
  /-- The text of the token, or of the input that no terminal matches. -/
  lexeme : String
  /-- The names of the symbols on the stack, the lowest first. -/
  stack : String
  deriving DecidableEq

namespace ParseError

variable {Failure : Type} [Explained Failure] [CharacterData]

/-- The wording of the place. -/
def place (error : ParseError Failure) : String :=
  match error.location with
  | some location => s!" at {location.display}"
  | none => s!" at offset {error.position}"

/-- The wording of an error. -/
def message (error : ParseError Failure) : String :=
  error.cause.message ++ error.place ++
    (if error.lexeme.isEmpty then "" else s!" near {Text.quote error.lexeme}") ++
    (if error.stack.isEmpty then "" else s!" after [{error.stack}]")

instance : Explained (ParseError Failure) where
  chain error := error.message :: error.cause.behind

end ParseError
end Parse
end ParserGenerator
