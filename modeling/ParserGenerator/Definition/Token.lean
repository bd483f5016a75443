import ParserGenerator.Definition.Terminals

/-!
# Tokens of the production section

Words in lower case name terminals, words in upper case non-terminals, and
punctuation marks stand for terminals with fixed names. A mark `%` with a
word is a directive, and two hyphens start a comment.
-/

namespace ParserGenerator
namespace Definition

/-- A token of the production section. -/
inductive Token
  /-- A label in front of a production. -/
  | label (name : String)
  | nonTerminal (name : String)
  | terminal (name : String)
  /-- The name of a production. -/
  | productionName (name : String)
  | arrow
  | start
  | shiftOn
  | reduceOn
  deriving DecidableEq

/-- The names of the terminals that punctuation marks stand for. -/
def markNames : List (Char × String) :=
  [('.', "dot"), ('-', "minus"), ('~', "tilde"), ('`', "backtick"),
    ('!', "exclamation"), ('@', "at"), ('#', "hash"), ('$', "dollar"),
    ('%', "percent"), ('^', "caret"), ('&', "ampersand"), ('*', "asterisk"),
    ('+', "plus"), ('=', "equals"), ('|', "pipe"), ('\\', "backslash"),
    ('<', "lessThan"), ('>', "greaterThan"), ('?', "question"),
    ('/', "slash"), (';', "semicolon"), ('(', "leftParen"),
    (')', "rightParen"), ('[', "leftBrack"), (']', "rightBrack"),
    ('\x7b', "leftBrace"), ('\x7d', "rightBrace"), (',', "comma"),
    ('\'', "singleQuote"), ('"', "doubleQuote"), (':', "colon")]

/-- The token of a directive. -/
def directive? : String → Option Token
  | "%start" => some .start
  | "%shift_on" => some .shiftOn
  | "%reduce_on" => some .reduceOn
  | "%nl" => some (.terminal "$nl")
  | "%nonl" => some (.terminal "$nonl")
  | _ => none

/-- Whether a character divides tokens. -/
def isSpace (character : Char) : Bool :=
  character == ' ' || character == '\t' || character == '\x0c' ||
    character == '\r'

/-- Whether a character can occur in the word of a directive. -/
def isDirectiveLetter (character : Char) : Bool :=
  isLower character || character == '_'

/-- What the first token of a line is, and how many characters it takes after
its first one. -/
structure Lexeme where
  /-- The token, or nothing for what is skipped. -/
  token : Option Token
  /-- The number of characters after the first one. -/
  extra : Nat

/-- The token of a word in lower case: a label if a colon follows. -/
def lowerLexeme (first : Char) (rest : List Char) : Lexeme :=
  let letters := rest.takeWhile isWordLetter
  let word := String.ofList (first :: letters)
  match rest.dropWhile isWordLetter with
  | ':' :: _ => ⟨some (.label word), letters.length + 1⟩
  | _ => ⟨some (.terminal word), letters.length⟩

/-- The token of a word in upper case: the name of a production if a colon
and a word follow. -/
def upperLexeme (first : Char) (rest : List Char) : Lexeme :=
  let letters := rest.takeWhile isWordLetter
  let word := first :: letters
  let label := match rest.dropWhile isWordLetter with
    | ':' :: after => after.takeWhile isWordLetter
    | _ => []
  if label.isEmpty then
    ⟨some (.nonTerminal (String.ofList word)), letters.length⟩
  else
    ⟨some (.productionName (String.ofList (word ++ ':' :: label))),
      letters.length + 1 + label.length⟩

/-- The token of a punctuation mark. -/
def markLexeme (line : Nat) (mark : Char) : Except LoadError Lexeme :=
  match markNames.lookup mark with
  | some name => .ok ⟨some (.terminal name), 0⟩
  | none => .error (.unexpectedText mark.toString line)

/-- The token of a directive, or of the mark `%` if no word follows. -/
def directiveLexeme (line : Nat) (rest : List Char) :
    Except LoadError Lexeme :=
  let letters := rest.takeWhile isDirectiveLetter
  let text := String.ofList ('%' :: letters)
  if letters.isEmpty then
    markLexeme line '%'
  else
    match directive? text with
    | some token => .ok ⟨some token, letters.length⟩
    | none => .error (.unknownDirective text line)

/-- The first token of some characters of a line. -/
def lexeme (line : Nat) (first : Char) (rest : List Char) :
    Except LoadError Lexeme :=
  if isSpace first then
    .ok ⟨none, 0⟩
  else if first = '-' && rest.head? = some '-' then
    .ok ⟨none, rest.length⟩
  else if first = '-' && rest.head? = some '>' then
    .ok ⟨some .arrow, 1⟩
  else if first = '%' then
    directiveLexeme line rest
  else if isLower first then
    .ok (lowerLexeme first rest)
  else if isUpper first then
    .ok (upperLexeme first rest)
  else
    markLexeme line first

/-- The tokens of a line. -/
def tokenize (line : Nat) : List Char → Except LoadError (List Token)
  | [] => .ok []
  | first :: rest => do
      let ⟨token, extra⟩ ← lexeme line first rest
      let tokens ← tokenize line (rest.drop extra)
      return token.toList ++ tokens
  termination_by characters => characters.length
  decreasing_by simp only [List.length_drop, List.length_cons]; omega

/-- The tokens of lines numbered from `number` on. -/
def tokenizeLines (number : Nat) :
    List (List Char) → Except LoadError (List (List Token))
  | [] => .ok []
  | line :: rest => do
      let tokens ← tokenize number line
      return tokens :: (← tokenizeLines (number + 1) rest)

end Definition
end ParserGenerator
