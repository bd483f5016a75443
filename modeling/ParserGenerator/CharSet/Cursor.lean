import ParserGenerator.PatternError

/-!
# Reading pattern text

A cursor over the characters of a pattern and the basic steps of a reader
that moves it. Faults are reported with the position they belong to.
-/

namespace ParserGenerator

/-- A place in a text. -/
structure Cursor where
  /-- The characters still to be read. -/
  rest : List Char
  /-- The number of characters read. -/
  position : Nat

/-- A computation that reads characters and may find a fault. -/
abbrev Reader := StateT Cursor (Except (Nat × PatternFault))

namespace Reader

/-- Report a fault at a position. -/
def failAt {Value : Type} (position : Nat) (fault : PatternFault) :
    Reader Value :=
  throw (position, fault)

/-- The number of characters read. -/
def position : Reader Nat := do return (← get).position

/-- The number of characters still to be read. -/
def remaining : Reader Nat := do return (← get).rest.length

/-- Report a fault at the current position. -/
def fail {Value : Type} (fault : PatternFault) : Reader Value := do
  failAt (← position) fault

/-- The next character. -/
def peek : Reader (Option Char) := do return (← get).rest.head?

/-- The character after the next one. -/
def peekSecond : Reader (Option Char) := do return (← get).rest[1]?

/-- Move past the next character. -/
def next : Reader (Option Char) := do
  match ← get with
  | ⟨[], _⟩ => return none
  | ⟨character :: rest, position⟩ =>
      set (Cursor.mk rest (position + 1))
      return some character

/-- Move past the next character if it is the given one. -/
def eat (character : Char) : Reader Bool := do
  if (← peek) = some character then
    let _ ← next
    return true
  else
    return false

/-- Move past the given character, which has to come next. -/
def expect (character : Char) : Reader Unit := do
  if ← eat character then
    return ()
  else
    fail (.expected character)

/-- Move past the longest run of characters with a property. -/
def takeWhile (property : Char → Bool) : Reader (List Char) := do
  let cursor ← get
  let taken := cursor.rest.takeWhile property
  set (Cursor.mk (cursor.rest.dropWhile property)
    (cursor.position + taken.length))
  return taken

/-- Run a reader over a whole text. -/
def run {Value : Type} (reader : Reader Value) (text : String) :
    Except PatternError Value :=
  match StateT.run reader ⟨text.toList, 0⟩ with
  | .ok (value, _) => .ok value
  | .error (position, fault) => .error ⟨text, position, fault⟩

end Reader
end ParserGenerator
