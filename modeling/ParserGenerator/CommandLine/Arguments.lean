/-!
# Arguments

Words of a command line as options and operands. An option is written with
two hyphens and its long name, or with one hyphen and its letter; letters may
be written together. A value follows its option in the same word or in the
next one. After two hyphens alone all words are operands.
-/

namespace ParserGenerator
namespace CommandLine

/-- An option that a command knows. -/
structure Flag where
  /-- The letter after a single hyphen. -/
  letter : Char
  /-- The name after two hyphens. -/
  long : String
  /-- Whether a value follows. -/
  takesValue : Bool
  deriving DecidableEq

/-- Words that were understood so far. -/
structure Arguments where
  /-- The options by letter, with their values. -/
  options : List (Char × String)
  /-- The operands. -/
  operands : List String
  /-- The option whose value comes next. -/
  awaiting : Option Char
  /-- Whether all other words are operands. -/
  operandsOnly : Bool
  deriving DecidableEq

namespace Arguments

/-- No words. -/
def empty : Arguments := ⟨[], [], none, false⟩

/-- Add an option, unless it was given before. -/
def addOption (arguments : Arguments) (letter : Char) (value : String) :
    Option Arguments :=
  if arguments.options.any fun entry => entry.1 == letter then
    none
  else
    some { arguments with
      options := arguments.options ++ [(letter, value)]
      awaiting := none }

/-- Add an operand. -/
def addOperand (arguments : Arguments) (word : String) : Arguments :=
  { arguments with operands := arguments.operands ++ [word] }

/-- Understand letters after a single hyphen. -/
def addLetters (flags : List Flag) (arguments : Arguments) :
    List Char → Option Arguments
  | [] => some arguments
  | letter :: rest =>
      match flags.find? fun flag => flag.letter == letter with
      | none => none
      | some flag =>
          if flag.takesValue then
            match rest with
            | [] => some { arguments with awaiting := some letter }
            | '=' :: value =>
                arguments.addOption letter (String.ofList value)
            | value => arguments.addOption letter (String.ofList value)
          else do
            let arguments ← arguments.addOption letter ""
            arguments.addLetters flags rest

/-- Understand what comes after two hyphens. -/
def addLong (flags : List Flag) (arguments : Arguments)
    (word : List Char) : Option Arguments :=
  let name := String.ofList (word.takeWhile (· != '='))
  let value := word.dropWhile (· != '=')
  match flags.find? fun flag => flag.long == name with
  | none => none
  | some flag =>
      match flag.takesValue, value with
      | true, [] => some { arguments with awaiting := some flag.letter }
      | true, _ :: value =>
          arguments.addOption flag.letter (String.ofList value)
      | false, [] => arguments.addOption flag.letter ""
      | false, _ :: _ => none

/-- Understand a word that is not the value of an option. -/
def addWord (flags : List Flag) (arguments : Arguments) (word : String) :
    Option Arguments :=
  if arguments.operandsOnly then
    some (arguments.addOperand word)
  else
    match word.toList with
    | ['-', '-'] => some { arguments with operandsOnly := true }
    | '-' :: '-' :: name => arguments.addLong flags name
    | '-' :: letter :: rest => arguments.addLetters flags (letter :: rest)
    | _ => some (arguments.addOperand word)

/-- Whether a word looks like an option. -/
def isOption (word : String) : Bool :=
  match word.toList with
  | '-' :: _ :: _ => true
  | _ => false

/-- Understand the next word. -/
def add (flags : List Flag) (arguments : Arguments) (word : String) :
    Option Arguments :=
  match arguments.awaiting with
  | none => arguments.addWord flags word
  | some letter =>
      if isOption word then none else arguments.addOption letter word

/-- Understand all words of a command. -/
def ofWords? (flags : List Flag) (words : List String) : Option Arguments :=
  (words.foldlM (Arguments.add flags) Arguments.empty).filter
    (·.awaiting.isNone)

/-- The value of an option, if it was given. -/
def value? (arguments : Arguments) (letter : Char) : Option String :=
  arguments.options.lookup letter

/-- Whether an option was given. -/
def has (arguments : Arguments) (letter : Char) : Bool :=
  (arguments.value? letter).isSome

end Arguments
end CommandLine
end ParserGenerator
