import ParserGenerator.Text.Units

/-!
# Sources of code units

A source hands out the units of a text piece by piece. An empty piece means
that there are no more.
-/

namespace ParserGenerator
namespace Stream

/-- Why a source cannot hand out units. -/
inductive SourceError
  /-- The bytes are not well formed. -/
  | malformed
  /-- Reading was interrupted and may be tried again. -/
  | interrupted (reason : String)
  /-- Reading failed. -/
  | failed (reason : String)
  deriving DecidableEq

/-- The wording of an error. -/
def SourceError.message : SourceError → String
  | malformed => "stream did not contain valid UTF-8"
  | interrupted reason => reason
  | failed reason => reason

/-- A supplier of code units. -/
class Source (Supply : Type) where
  /-- At most the given number of units, and what is left. -/
  read : Nat → Supply → Except SourceError (List CodeUnit) × Supply

/-- Units that are all there from the start. -/
structure InMemory where
  /-- The units not yet handed out. -/
  units : List CodeUnit
  deriving DecidableEq

/-- The source of the units of a text. -/
def InMemory.ofString (text : String) : InMemory := ⟨Text.encode text⟩

instance : Source InMemory where
  read room memory :=
    (.ok (memory.units.take room), ⟨memory.units.drop room⟩)

end Stream
end ParserGenerator
