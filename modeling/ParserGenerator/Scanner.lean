import ParserGenerator.Lexicon
import ParserGenerator.Stream.LineCounter
import ParserGenerator.Stream.Window
import ParserGenerator.Token

/-!
# Scanners

Cutting the pending units of a window into tokens. Each lexeme is the longest
match at its start; trivia is skipped, but a line break in it is remembered
for the next token. A scanner stops where the window has to be refilled.
-/

open ParserGenerator.Stream

namespace ParserGenerator

/-- What a scanner knows about the lexemes before the pending units. -/
structure Scanner where
  /-- The starts of lines, if they are tracked. -/
  lines : Option LineCounter
  /-- Whether there was a line break since the last token. -/
  lineBreak : Bool
  /-- The number of lexemes that were skipped. -/
  triviaSkipped : Nat
  deriving DecidableEq

/-- The answer of a scanner. -/
inductive Scan
  /-- The next token. -/
  | token (token : Token)
  /-- The window has to be refilled first. -/
  | needInput
  /-- No terminal matches; some of the text that is there instead. -/
  | unrecognized (lexeme : String)
  deriving DecidableEq

namespace Scanner

/-- A scanner at the start of a text. -/
def start (trackLines : Bool) : Scanner :=
  ⟨if trackLines then some LineCounter.start else none, false, 0⟩

/-- The line and column of an offset, if they are known. -/
def location (scanner : Scanner) (offset : Nat) : Option Position :=
  scanner.lines.bind (·.location offset)

/-- Record the lines of a lexeme and forget those that end before it. -/
def observe (scanner : Scanner) (offset : Nat) (units : List CodeUnit) :
    Scanner :=
  { scanner with
    lines := scanner.lines.map fun lines =>
      (lines.observe offset units).discardBefore offset }

/-- Skip a lexeme. -/
def skip (scanner : Scanner) (units : List CodeUnit) : Scanner :=
  { scanner with
    lineBreak := scanner.lineBreak || units.any isLineBreak
    triviaSkipped := scanner.triviaSkipped + 1 }

/-- Hand out a token: the line break before it is no longer to be told. -/
def emit (scanner : Scanner) : Scanner := { scanner with lineBreak := false }

/-- The greatest number of units that an error shows. -/
def previewLength : Nat := 32

/-- The start of some units that no terminal matches, up to the end of the
line. -/
def preview (units : List CodeUnit) : String :=
  Text.decode ((units.take previewLength).takeWhile fun unit =>
    !isLineBreak unit)

variable [CharacterData]

/-- The next token in a window. A skipped lexeme is never empty, since no
terminal of a grammar matches the empty text. -/
def scan (lexicon : Lexicon) (scanner : Scanner) (window : Window) :
    Scan × Scanner × Window :=
  if window.pending.isEmpty then
    if window.atEnd then
      (.token ⟨Grammar.endSymbol, "", window.position, scanner.lineBreak⟩,
        scanner.emit, window)
    else
      (.needInput, scanner, window)
  else
    match lexicon.automaton.longestMatch window.pending window.atEnd with
    | .needMore => (.needInput, scanner, window)
    | .noMatch => (.unrecognized (preview window.pending), scanner, window)
    | .found terminal length =>
        let units := window.pending.take length
        let position := window.position
        let observed := scanner.observe position units
        if lexicon.isTrivia terminal then
          if 0 < length then
            scan lexicon (observed.skip units) (window.consume length)
          else
            (.needInput, observed, window)
        else
          (.token ⟨lexicon.symbol terminal, Text.decode units, position,
              observed.lineBreak⟩,
            observed.emit, window.consume length)
termination_by window.pending.length
decreasing_by
  rename_i nonempty positive
  have pending : window.pending.length ≠ 0 := by simpa using nonempty
  simp only [Window.consume, List.length_drop]
  omega

/-- The tokens of a stream up to its end or to text that no terminal matches,
each with its place, and how the scan ends. -/
structure Tokens where
  /-- The tokens and where they start, if lines are tracked. -/
  tokens : List (Token × Option Position)
  /-- The text that no terminal matches, if there is such. -/
  unrecognized : Option String
  /-- The scanner at the end. -/
  scanner : Scanner
  /-- The window at the end. -/
  window : Window

/-- All tokens of a stream. The fuel bounds the tokens and refills. -/
def tokensWithin {Supply : Type} [Source Supply] (lexicon : Lexicon) :
    (fuel : Nat) → Scanner → Window → Supply → Tokens
  | 0, scanner, window, _ => ⟨[], none, scanner, window⟩
  | fuel + 1, scanner, window, supply =>
      match scanner.scan lexicon window with
      | (.unrecognized lexeme, after, rest) => ⟨[], some lexeme, after, rest⟩
      | (.needInput, after, rest) =>
          let (_, refilled, supply) := rest.fill supply
          tokensWithin lexicon fuel after refilled supply
      | (.token token, after, rest) =>
          let entry := (token, after.location token.position)
          if token.isEnd then
            ⟨[entry], none, after, rest⟩
          else
            let others := tokensWithin lexicon fuel after rest supply
            { others with tokens := entry :: others.tokens }

/-- All tokens of some units that pass through a window of the given capacity,
or that are all in the window if none is given. Each refill and each token
takes up a unit, except for the last ones. -/
def tokens (lexicon : Lexicon) (trackLines : Bool) (capacity : Option Nat)
    (units : List CodeUnit) : Tokens :=
  let fuel := 2 * units.length + 4
  match capacity with
  | none =>
      tokensWithin lexicon fuel (start trackLines) (Window.ofUnits units)
        (InMemory.mk [])
  | some capacity =>
      tokensWithin lexicon fuel (start trackLines)
        (Window.ofCapacity capacity) (InMemory.mk units)

end Scanner
end ParserGenerator
