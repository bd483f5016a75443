import Mathlib.Data.List.Forall2
import ParserGenerator.Definition

/-!
# What definitions declare and how they are written

A source is what a definition declares, apart from its text: the terminals with
their options and patterns, and the statements about productions. It stands for
one grammar and one goal. It may be written in many ways: blank lines and
comments may stand between the lines, and gaps between the words.
-/

namespace ParserGenerator
namespace Definition

/-! ## Sources -/

/-- A terminal that is declared. -/
structure TerminalSource where
  /-- The name. -/
  name : String
  /-- The text of the pattern. -/
  text : String
  /-- The pattern that the text stands for. -/
  pattern : Pattern
  /-- How the terminal is matched and used. -/
  options : TerminalOptions

/-- The symbol of a terminal. -/
def TerminalSource.symbol (terminal : TerminalSource) : Symbol :=
  ⟨terminal.name, .terminal terminal.pattern terminal.options⟩

/-- What a definition declares. -/
structure Source where
  /-- Whether letters match in either case. -/
  anyCase : Bool
  /-- The terminals in order. -/
  terminals : List TerminalSource
  /-- The productions and directives in order. -/
  statements : List Statement

/-- A word with a first character of one kind and others of another kind. -/
def IsWord (isStart isLetter : Char → Bool) (word : List Char) : Prop :=
  ∃ first letters, word = first :: letters ∧ isStart first = true ∧
    ∀ letter ∈ letters, isLetter letter = true

/-- The name of a terminal or the label of a production. -/
def IsLowerName (name : String) : Prop :=
  IsWord isLower isWordLetter name.toList

/-- The name of a non-terminal. -/
def IsUpperName (name : String) : Prop :=
  IsWord isUpper isWordLetter name.toList

/-- The name of a shorthand stands somewhere in double braces. -/
def RefersToShorthand (characters : List Char) : Prop :=
  ∃ before gap name otherGap after,
    characters = before ++ ['\x7b', '\x7b'] ++ gap ++ name ++ otherGap ++
      ['\x7d', '\x7d'] ++ after ∧
    (∀ character ∈ gap, Text.isBlank character = true) ∧
    IsWord isShorthandStart isShorthandLetter name ∧
    ∀ character ∈ otherGap, Text.isBlank character = true

/-- What is asked of a terminal. -/
structure TerminalSource.Proper [CharacterData] (terminal : TerminalSource) :
    Prop where
  /-- The name starts with a lower-case letter. -/
  name : IsLowerName terminal.name
  /-- The text is that of the pattern. -/
  parsed : Pattern.parse terminal.text = .ok terminal.pattern
  /-- The pattern does not match the empty text. -/
  notNullable : terminal.pattern.isNullable = false
  /-- The text fits on a line. -/
  oneLine : '\n' ∉ terminal.text.toList
  /-- The text has no white space at its ends. -/
  trimmed : Text.trimmed terminal.text.toList = terminal.text.toList
  /-- The text does not start like flags. -/
  noFlags : terminal.text.toList.head? ≠ some '<'
  /-- The text stands for itself. -/
  noShorthand : ¬ RefersToShorthand terminal.text.toList

/-- The heads of productions with labels, each with the label. -/
def labels (statements : List Statement) : List (String × String) :=
  statements.filterMap fun
    | .production (some label) head _ => some (head, label)
    | _ => none

/-- The symbols of the start directives. -/
def starts (statements : List Statement) : List String :=
  statements.filterMap fun
    | .start head => some head
    | _ => none

/-- The terminals on which a shift wins over a production. -/
def shiftNames (statements : List Statement) (rule : String) : List String :=
  statements.flatMap fun
    | .shiftOn production symbols =>
        if production = rule then symbols else []
    | _ => []

/-- The terminals on which a production wins. -/
def reduceNames (statements : List Statement) (rule : String) : List String :=
  statements.flatMap fun
    | .reduceOn production symbols =>
        if production = rule then symbols else []
    | _ => []

/-- A production by names. -/
structure Rule where
  /-- The unique name. -/
  name : String
  /-- The non-terminal that is defined. -/
  head : String
  /-- The symbols it is replaced by. -/
  body : List Reference

/-- The productions of some statements, the heads of earlier productions being
given. A production is named by its head and by its label or, without one, by
its number among the productions of its head. -/
def rulesAfter (earlier : List String) : List Statement → List Rule
  | [] => []
  | .production label head body :: rest =>
      ⟨head ++ ":" ++ label.getD (toString (earlier.count head + 1)), head,
        body⟩ :: rulesAfter (earlier ++ [head]) rest
  | _ :: rest => rulesAfter earlier rest

namespace Source

/-- The productions. -/
def rules (source : Source) : List Rule := rulesAfter [] source.statements

/-- The non-terminals: the heads by first appearance, then by first appearance
those that are in bodies only. -/
def nonTerminals (source : Source) : List String :=
  (heads source.statements).eraseDups ++
    ((bodyNonTerminals source.statements).removeAll
      (heads source.statements)).eraseDups

/-- The names that stand for terminals: those of the markers of line breaks and
of the declared terminals. -/
def terminalNames (source : Source) : List String :=
  ["$nl", "$nonl"] ++ source.terminals.map TerminalSource.name

/-- What is asked of a statement. -/
def ProperStatement (source : Source) : Statement → Prop
  | .production label head body =>
      (∀ name ∈ label, IsLowerName name) ∧ IsUpperName head ∧
        ∀ reference ∈ body,
          if reference.isNonTerminal then
            IsUpperName reference.name
          else
            reference.name ∈ source.terminalNames
  | .start head => head ∈ source.nonTerminals
  | .shiftOn production symbols | .reduceOn production symbols =>
      production ∈ source.rules.map Rule.name ∧ symbols ≠ [] ∧
        ∀ name ∈ symbols, name ∈ source.terminalNames

/-- What is asked of a source. -/
structure Proper [CharacterData] (source : Source) : Prop where
  /-- Each terminal is as it should be. -/
  terminals : ∀ terminal ∈ source.terminals, terminal.Proper
  /-- No two terminals have one name. -/
  distinct : (source.terminals.map TerminalSource.name).Nodup
  /-- Each statement is as it should be. -/
  statements : ∀ statement ∈ source.statements,
    source.ProperStatement statement
  /-- There is a production. -/
  someRule : heads source.statements ≠ []
  /-- No two productions of a head have one label. -/
  labels : (labels source.statements).Nodup

/-- The symbols: the structural ones, the terminals and the non-terminals. -/
def symbols (source : Source) : List Symbol :=
  (Grammar.empty source.anyCase).symbols.toList ++
    (source.terminals.map TerminalSource.symbol ++
      source.nonTerminals.map (⟨·, .nonTerminal⟩))

/-- The number of a symbol by its name. -/
def number (source : Source) (name : String) : SymbolId :=
  (source.symbols.map Symbol.name).idxOf name

/-- A production by numbers, with the overrides of some statements. -/
def production (source : Source) (overrides : List Statement) (rule : Rule) :
    Production where
  name := rule.name
  head := source.number rule.head
  body := rule.body.map fun reference => source.number reference.name
  shiftOn := ascending ((shiftNames overrides rule.name).map source.number)
  reduceOn := ascending ((reduceNames overrides rule.name).map source.number)
  lookaheadOverrides := []

/-- The grammar that a source stands for. -/
def grammar (source : Source) : Grammar where
  anyCase := source.anyCase
  symbols := source.symbols.toArray
  productions :=
    (source.rules.map (source.production source.statements)).toArray

/-- The goal: the symbol of the last start directive or, without any, the head
of the first production. -/
def goalName (source : Source) : String :=
  (starts source.statements).getLast?.getD
    ((heads source.statements).headD "")

/-- The grammar with its goal. -/
def definition (source : Source) : Definition :=
  ⟨source.grammar, source.number source.goalName⟩

end Source

/-! ## The terminal section -/

/-- Characters that may stand between words. -/
def IsGap (gap : List Char) : Prop := ∀ character ∈ gap, isSpace character = true

/-- A line without content: blank or a comment. -/
inductive Filler : List Char → Prop
  | blank
      {gap : List Char}
      (isGap : IsGap gap) :
      Filler gap
  | comment
      {gap text : List Char}
      (isGap : IsGap gap)
      (oneLine : '\n' ∉ text) :
      Filler (gap ++ ('-' :: '-' :: text))

/-- Some content between gaps. -/
inductive Padded (content : List Char) : List Char → Prop
  | intro
      {before after : List Char}
      (isGapBefore : IsGap before)
      (isGapAfter : IsGap after) :
      Padded content (before ++ (content ++ after))

/-- The flags of a terminal between angle brackets, or nothing. -/
inductive WritesFlags : TerminalOptions → List Char → Prop
  | none : WritesFlags ⟨false, false⟩ []
  | some
      {flags : List String}
      {parts : List (List Char)}
      {gap : List Char}
      (nonempty : flags ≠ [])
      (known : ∀ flag ∈ flags, flag = "lazy" ∨ flag = "skip")
      (written : List.Forall₂ (fun flag part => Padded flag.toList part)
        flags parts)
      (isGap : IsGap gap) :
      WritesFlags ⟨"lazy" ∈ flags, "skip" ∈ flags⟩
        ('<' :: ([','].intercalate parts ++ '>' :: gap))

/-- A line that declares a terminal. -/
inductive WritesTerminal (terminal : TerminalSource) : List Char → Prop
  | intro
      {colonGap flagGap flags line : List Char}
      (isColonGap : IsGap colonGap)
      (isFlagGap : IsGap flagGap)
      (writesFlags : WritesFlags terminal.options flags)
      (padded : Padded (terminal.name.toList ++ (colonGap ++ ':' ::
        (flagGap ++ (flags ++ terminal.text.toList)))) line) :
      WritesTerminal terminal line

/-- The lines of the terminal section. -/
inductive WritesTerminals :
    Bool → List TerminalSource → List (List Char) → Prop
  | nil : WritesTerminals false [] []
  | filler
      {anyCase : Bool}
      {terminals : List TerminalSource}
      {line : List Char}
      {lines : List (List Char)}
      (isFiller : Filler line)
      (rest : WritesTerminals anyCase terminals lines) :
      WritesTerminals anyCase terminals (line :: lines)
  | anyCase
      {anyCase : Bool}
      {terminals : List TerminalSource}
      {line : List Char}
      {lines : List (List Char)}
      (padded : Padded "%case_insensitive".toList line)
      (rest : WritesTerminals anyCase terminals lines) :
      WritesTerminals true terminals (line :: lines)
  | terminal
      {anyCase : Bool}
      {terminal : TerminalSource}
      {terminals : List TerminalSource}
      {line : List Char}
      {lines : List (List Char)}
      (writes : WritesTerminal terminal line)
      (rest : WritesTerminals anyCase terminals lines) :
      WritesTerminals anyCase (terminal :: terminals) (line :: lines)

/-! ## The production section -/

/-- Words with gaps between them and around them. -/
inductive Spread : List (List Char) → List Char → Prop
  | nil
      {gap : List Char}
      (isGap : IsGap gap) :
      Spread [] gap
  | cons
      {gap word rest : List Char}
      {words : List (List Char)}
      (isGap : IsGap gap)
      (isApart : ∀ character ∈ rest.head?, isSpace character = true)
      (spread : Spread words rest) :
      Spread (word :: words) (gap ++ (word ++ rest))

/-- A symbol as a word. -/
inductive WritesSymbol : Reference → List Char → Prop
  | terminal
      {name : String}
      (isName : IsLowerName name) :
      WritesSymbol ⟨name, false⟩ name.toList
  | mark
      {mark : Char}
      {name : String}
      (isMark : (mark, name) ∈ markNames) :
      WritesSymbol ⟨name, false⟩ [mark]
  | lineBreak : WritesSymbol ⟨"$nl", false⟩ "%nl".toList
  | noLineBreak : WritesSymbol ⟨"$nonl", false⟩ "%nonl".toList
  | nonTerminal
      {name : String}
      (isName : IsUpperName name) :
      WritesSymbol ⟨name, true⟩ name.toList

/-- Terminals as words. -/
def WritesNames (names : List String) (words : List (List Char)) : Prop :=
  List.Forall₂ WritesSymbol (names.map (⟨·, false⟩)) words

/-- The label in front of a production as a word, if there is one. -/
def labelWords : Option String → List (List Char)
  | none => []
  | some label => [label.toList ++ [':']]

/-- A line with a statement. -/
inductive WritesStatement : Statement → List Char → Prop
  | production
      {label : Option String}
      {head : String}
      {body : List Reference}
      {words : List (List Char)}
      {line : List Char}
      (writes : List.Forall₂ WritesSymbol body words)
      (spread : Spread
        (labelWords label ++ head.toList :: "->".toList :: words) line) :
      WritesStatement (.production label head body) line
  | start
      {head : String}
      {line : List Char}
      (spread : Spread ["%start".toList, head.toList] line) :
      WritesStatement (.start head) line
  | shiftOn
      {production : String}
      {symbols : List String}
      {words : List (List Char)}
      {line : List Char}
      (writes : WritesNames symbols words)
      (spread : Spread
        ("%shift_on".toList :: production.toList :: words) line) :
      WritesStatement (.shiftOn production symbols) line
  | reduceOn
      {production : String}
      {symbols : List String}
      {words : List (List Char)}
      {line : List Char}
      (writes : WritesNames symbols words)
      (spread : Spread
        ("%reduce_on".toList :: production.toList :: words) line) :
      WritesStatement (.reduceOn production symbols) line

/-- The lines of the production section. -/
inductive WritesStatements : List Statement → List (List Char) → Prop
  | nil : WritesStatements [] []
  | filler
      {statements : List Statement}
      {line : List Char}
      {lines : List (List Char)}
      (isFiller : Filler line)
      (rest : WritesStatements statements lines) :
      WritesStatements statements (line :: lines)
  | statement
      {statement : Statement}
      {statements : List Statement}
      {line : List Char}
      {lines : List (List Char)}
      (writes : WritesStatement statement line)
      (rest : WritesStatements statements lines) :
      WritesStatements (statement :: statements) (line :: lines)

/-- A text that a source is written as: two sections of lines and a dividing
line between them. -/
inductive Source.Writes (source : Source) : String → Prop
  | intro
      {terminalLines productionLines : List (List Char)}
      {divider : List Char}
      {text : String}
      (terminals : WritesTerminals source.anyCase source.terminals
        terminalLines)
      (divides : Padded ['%', '%'] divider)
      (statements : WritesStatements source.statements productionLines)
      (lines : text.toList = ['\n'].intercalate
        (terminalLines ++ divider :: productionLines)) :
      Source.Writes source text

end Definition
end ParserGenerator
