import ParserGenerator.Definition.Error
import ParserGenerator.Text.Lines

/-!
# The terminal section of a definition

Each line declares a terminal by its name, its flags and its pattern, gives a
name to a part of patterns, or asks for matching in either case. A name in
double braces inside a pattern stands for the part it was given before.
-/

namespace ParserGenerator
namespace Definition

/-- A terminal as declared by a line. -/
structure TerminalLine where
  /-- The name. -/
  name : String
  /-- The pattern with all names replaced. -/
  pattern : String
  /-- How the terminal is matched and used. -/
  options : TerminalOptions
  /-- The number of the line. -/
  line : Nat
  deriving DecidableEq

/-- What the terminal section declares. -/
structure TerminalSection where
  /-- Whether letters match in either case. -/
  anyCase : Bool
  /-- The terminals in order. -/
  terminals : List TerminalLine
  /-- The named parts of patterns, latest first. -/
  shorthands : List (String × List Char)
  deriving DecidableEq

/-- Whether a character can start the name of a shorthand. -/
def isShorthandStart (character : Char) : Bool :=
  ('A' ≤ character && character ≤ 'Z') || character == '_'

/-- Whether a character can occur in the name of a shorthand. -/
def isShorthandLetter (character : Char) : Bool :=
  isShorthandStart character || ('0' ≤ character && character ≤ '9')

/-- Whether a character is a lower-case letter. -/
def isLower (character : Char) : Bool :=
  'a' ≤ character && character ≤ 'z'

/-- Whether a character is an upper-case letter. -/
def isUpper (character : Char) : Bool :=
  'A' ≤ character && character ≤ 'Z'

/-- Whether a character can occur in a word. -/
def isWordLetter (character : Char) : Bool :=
  isLower character || isUpper character ||
    ('0' ≤ character && character ≤ '9') || character == '_'

/-- The name at the start of some characters, and what follows it. -/
def takeName (isStart isLetter : Char → Bool) :
    List Char → Option (List Char × List Char)
  | [] => none
  | character :: rest =>
      if isStart character then
        some (character :: rest.takeWhile isLetter, rest.dropWhile isLetter)
      else
        none

/-- Characters without the white space they start with. -/
def skipBlanks (characters : List Char) : List Char :=
  characters.dropWhile Text.isBlank

/-- The shorthand in double braces at the start of some characters, and what
follows it. -/
def reference? : List Char → Option (String × List Char)
  | '\x7b' :: '\x7b' :: rest => do
      let (name, rest) ←
        takeName isShorthandStart isShorthandLetter (skipBlanks rest)
      match skipBlanks rest with
      | '\x7d' :: '\x7d' :: rest => some (String.ofList name, rest)
      | _ => none
  | _ => none

/-- Text divided at the references to shorthands. -/
inductive Piece
  | character (character : Char)
  | reference (name : String)

/-- Divide characters at the references to shorthands. The fuel bounds their
number. -/
def pieces : (fuel : Nat) → List Char → List Piece
  | 0, _ => []
  | _, [] => []
  | fuel + 1, character :: rest =>
      match reference? (character :: rest) with
      | some (name, rest) => .reference name :: pieces fuel rest
      | none => .character character :: pieces fuel rest

/-- The names of the shorthands that pieces refer to. -/
def references (parts : List Piece) : List String :=
  parts.filterMap fun
    | .reference name => some name
    | .character _ => none

/-- The characters of a piece, a shorthand being replaced by its value as a
group. -/
def replace (shorthands : List (String × List Char)) : Piece → List Char
  | .character character => [character]
  | .reference name =>
      "(?:".toList ++ (shorthands.lookup name).getD [] ++ [')']

/-- Names in order without repetitions. -/
def sortNames (names : List String) : List String :=
  (names.eraseDups).mergeSort (· ≤ ·)

/-- Replace all shorthands, again and again until there are none. -/
def expand (shorthands : List (String × List Char)) (input : List Char) :
    (fuel : Nat) → List Char → Except LoadError (List Char)
  | 0, _ => .error (.expansionTooDeep (String.ofList input))
  | fuel + 1, characters =>
      let parts := pieces characters.length characters
      let names := references parts
      let missing := names.filter fun name => (shorthands.lookup name).isNone
      if !missing.isEmpty then
        .error (.unknownVariables (sortNames missing))
      else if names.isEmpty then
        .ok characters
      else
        expand shorthands input fuel (parts.flatMap (replace shorthands))

/-- The number of times that shorthands are replaced at most. -/
def expansionLimit : Nat := 64

/-- A line that gives a name to a part of patterns. -/
def shorthandLine? (line : List Char) : Option (String × List Char) := do
  let (name, rest) ← takeName isShorthandStart isShorthandLetter line
  match skipBlanks rest with
  | '=' :: value => some (String.ofList name, Text.trimmed value)
  | _ => none

/-- The flags between angle brackets and the pattern of a terminal. Without a
pattern after them the brackets are the pattern. -/
def splitFlags (text : List Char) : Option (List Char) × List Char :=
  match text with
  | '<' :: rest =>
      match rest.dropWhile (· != '>') with
      | '>' :: after =>
          let pattern := skipBlanks after
          if pattern.isEmpty then
            (none, text)
          else
            (some (rest.takeWhile (· != '>')), pattern)
      | _ => (none, text)
  | _ => (none, text)

/-- A line that declares a terminal: its name, its flags and its pattern. -/
def terminalLine? (line : List Char) :
    Option (String × Option (List Char) × List Char) := do
  let (name, rest) ← takeName isLower isWordLetter line
  match skipBlanks rest with
  | ':' :: rest =>
      let (flags, pattern) := splitFlags (skipBlanks rest)
      if pattern.isEmpty then
        none
      else
        some (String.ofList name, flags, pattern)
  | _ => none

/-- The options that some flags stand for. -/
def readFlags (line : Nat) (options : TerminalOptions) :
    List String → Except LoadError TerminalOptions
  | [] => .ok options
  | "" :: rest => readFlags line options rest
  | "lazy" :: rest => readFlags line { options with isLazy := true } rest
  | "skip" :: rest => readFlags line { options with isTrivia := true } rest
  | flag :: _ => .error (.unknownFlag flag line)

/-- The flags of a list divided by commas. -/
def flagNames (flags : Option (List Char)) : List String :=
  match flags with
  | none => []
  | some flags =>
      (Text.splitAt ',' flags).map fun flag =>
        String.ofList (Text.trimmed flag)

/-- Add what a line without surrounding white space declares. -/
def readTerminalLine (found : TerminalSection) (number : Nat)
    (line : List Char) : Except LoadError TerminalSection :=
  if line.isEmpty || "--".toList.isPrefixOf line then
    .ok found
  else if line = "%case_insensitive".toList then
    .ok { found with anyCase := true }
  else
    match shorthandLine? line with
    | some (name, value) => do
        let value ← expand found.shorthands value expansionLimit value
        return { found with shorthands := (name, value) :: found.shorthands }
    | none =>
        match terminalLine? line with
        | none => .error (.unrecognizedLine number (String.ofList line))
        | some (name, flags, pattern) => do
            let pattern ←
              expand found.shorthands pattern expansionLimit pattern
            let options ←
              readFlags number ⟨false, false⟩ (flagNames flags)
            if found.terminals.any (·.name == name) then
              throw (.redeclaredTerminal name number)
            else
              return { found with
                terminals := found.terminals ++
                  [⟨name, String.ofList pattern, options, number⟩] }

/-- Add what lines numbered from `number` on declare. -/
def readTerminalLines (found : TerminalSection) (number : Nat) :
    List (List Char) → Except LoadError TerminalSection
  | [] => .ok found
  | line :: rest => do
      let found ← readTerminalLine found number (Text.trimmed line)
      readTerminalLines found (number + 1) rest

/-- What the lines of a terminal section declare. -/
def readTerminals (lines : List (List Char)) :
    Except LoadError TerminalSection :=
  readTerminalLines ⟨false, [], []⟩ 1 lines

end Definition
end ParserGenerator
