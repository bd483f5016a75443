/-!
# Iteration to a fixed point

Apply a step until it changes nothing, counting the applications.
-/

namespace ParserGenerator

/-- A value that a step no longer changes and the number of applications that
it took, the last one included. -/
structure Settled (Value : Type) where
  /-- The value reached. -/
  value : Value
  /-- The number of applications. -/
  passes : Nat

/-- Apply a step until it changes nothing, at most `fuel` times. -/
def settle {Value : Type} [DecidableEq Value] (step : Value → Value) :
    (fuel : Nat) → Value → Settled Value
  | 0, value => ⟨value, 0⟩
  | fuel + 1, value =>
      let next := step value
      if next = value then
        ⟨value, 1⟩
      else
        let settled := settle step fuel next
        ⟨settled.value, settled.passes + 1⟩

end ParserGenerator
