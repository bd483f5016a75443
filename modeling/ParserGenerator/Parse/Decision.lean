import ParserGenerator.Table
import ParserGenerator.Token

/-!
# Decisions

What a parser does in a state when a token comes next. As long as no marker
was shifted before the token, the marker for the presence or absence of a
line break is tried first; it is shifted only where the token can follow it.
-/

namespace ParserGenerator
namespace Parse

/-- What a parser does next. -/
inductive Decision
  | shiftMarker (target : Nat) (marker : SymbolId)
  | shift (target : Nat)
  | reduce (production : ProductionId)
  | accept
  | reject
  deriving DecidableEq

namespace Decision

/-- The decision on the marker before a token, if the marker matters. -/
def ofMarker (table : Table) (state : Nat) (token : Token) :
    Option Decision :=
  match table.action state token.marker with
  | some (.shift target) =>
      if (table.action target token.symbol).isSome then
        some (.shiftMarker target token.marker)
      else
        none
  | some (.reduce production) => some (.reduce production)
  | _ => none

/-- The decision on a token. -/
def ofToken (table : Table) (state : Nat) (token : Token) : Decision :=
  match table.action state token.symbol with
  | some (.shift target) => .shift target
  | some (.reduce production) => .reduce production
  | some .accept => .accept
  | none => .reject

/-- The decision in a state on a token and the marker before it. -/
def make (table : Table) (state : Nat) (markerShifted : Bool)
    (token : Token) : Decision :=
  if markerShifted then
    ofToken table state token
  else
    (ofMarker table state token).getD (ofToken table state token)

end Decision
end Parse
end ParserGenerator
