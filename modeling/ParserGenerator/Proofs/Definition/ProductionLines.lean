import ParserGenerator.Proofs.Definition.TerminalLines

/-!
# Reading the production section

Each word of a line is read as one token, since a gap or the end of the line
follows it, and the tokens of a line are those of its statement. So the lines of
a section give all statements in order.
-/

namespace ParserGenerator
namespace Definition

/-! ## Words -/

/-- A word is read as one token if a gap or nothing follows it. -/
def Lexes (word : List Char) (token : Token) : Prop :=
  ∃ first letters, word = first :: letters ∧
    ∀ (line : Nat) (rest : List Char),
      (∀ character ∈ rest.head?, isSpace character = true) →
        lexeme line first (letters ++ rest) =
          .ok ⟨some token, letters.length⟩

/-- Letters of words are none of the characters with a meaning of their own. -/
theorem lexeme_of_isWordLetter
    {first : Char}
    (inWord : isWordLetter first = true)
    (line : Nat)
    (rest : List Char) :
    lexeme line first rest =
      if isLower first then
        .ok (lowerLexeme first rest)
      else if isUpper first then
        .ok (upperLexeme first rest)
      else
        markLexeme line first := by
  have notSpace : isSpace first = false := by
    cases space : isSpace first with
    | false => rfl
    | true =>
        rw [isWordLetter_of_isSpace space] at inWord
        contradiction
  have notHyphen : first ≠ '-' := by
    rintro rfl
    contradiction
  have notPercent : first ≠ '%' := by
    rintro rfl
    contradiction
  simp [lexeme, notSpace, notHyphen, notPercent]

theorem stops_of_isSpace
    {rest : List Char}
    (isApart : ∀ character ∈ rest.head?, isSpace character = true) :
    ∀ character ∈ rest.head?, isWordLetter character = false :=
  fun character isHead => isWordLetter_of_isSpace (isApart character isHead)

theorem directive_stops_of_isSpace
    {rest : List Char}
    (isApart : ∀ character ∈ rest.head?, isSpace character = true) :
    ∀ character ∈ rest.head?, isDirectiveLetter character = false := by
  intro character isHead
  have space := isApart character isHead
  simp only [isSpace, Bool.or_eq_true, beq_iff_eq] at space
  rcases space with ((rfl | rfl) | rfl) | rfl <;> decide

theorem lexes_lowerName
    {name : String}
    (isName : IsLowerName name) :
    Lexes name.toList (.terminal name) := by
  obtain ⟨first, letters, spelt, lower, isLetters⟩ := isName
  refine ⟨first, letters, spelt, fun line rest isApart => ?_⟩
  obtain ⟨taken, left⟩ := span_letters isLetters (stops_of_isSpace isApart)
  rw [lexeme_of_isWordLetter (isWordLetter_of_isLower lower), if_pos lower,
    lowerLexeme, taken, left, ← spelt, String.ofList_toList]
  split
  · next after => exact absurd (isApart ':' rfl) (by decide)
  · rfl

theorem lexes_label
    {name : String}
    (isName : IsLowerName name) :
    Lexes (name.toList ++ [':']) (.label name) := by
  obtain ⟨first, letters, spelt, lower, isLetters⟩ := isName
  refine ⟨first, letters ++ [':'], by rw [spelt]; rfl, fun line rest _ => ?_⟩
  obtain ⟨taken, left⟩ := @span_letters isWordLetter letters (':' :: rest)
    isLetters (by simp [isWordLetter, isLower, isUpper])
  rw [lexeme_of_isWordLetter (isWordLetter_of_isLower lower), if_pos lower,
    List.append_assoc, List.singleton_append, lowerLexeme, taken, left,
    ← spelt, String.ofList_toList, List.length_append]
  rfl

theorem isLower_of_isUpper
    {letter : Char}
    (upper : isUpper letter = true) :
    isLower letter = false := by
  rw [isUpper_iff] at upper
  rw [Bool.eq_false_iff, ne_eq, isLower_iff]
  omega

theorem lexes_upperName
    {name : String}
    (isName : IsUpperName name) :
    Lexes name.toList (.nonTerminal name) := by
  obtain ⟨first, letters, spelt, upper, isLetters⟩ := isName
  refine ⟨first, letters, spelt, fun line rest isApart => ?_⟩
  obtain ⟨taken, left⟩ := span_letters isLetters (stops_of_isSpace isApart)
  have noLabel : ∀ after, rest ≠ ':' :: after := by
    rintro after rfl
    exact absurd (isApart ':' rfl) (by decide)
  rw [lexeme_of_isWordLetter (isWordLetter_of_isUpper upper),
    if_neg (by simp [isLower_of_isUpper upper]), if_pos upper]
  unfold upperLexeme
  simp only [taken, left]
  rw [if_pos List.isEmpty_nil, ← spelt, String.ofList_toList]

/-- The name of a production: a head and a label or a number. -/
def IsRuleName (name : String) : Prop :=
  ∃ head label, name.toList = head ++ ':' :: label ∧
    IsWord isUpper isWordLetter head ∧ label ≠ [] ∧
      ∀ letter ∈ label, isWordLetter letter = true

theorem lexes_ruleName
    {name : String}
    (isName : IsRuleName name) :
    Lexes name.toList (.productionName name) := by
  obtain ⟨_, label, spelt, ⟨first, letters, rfl, upper, isLetters⟩, someLabel,
    isLabel⟩ := isName
  refine ⟨first, letters ++ ':' :: label, spelt, fun line rest isApart => ?_⟩
  obtain ⟨taken, left⟩ := @span_letters isWordLetter letters
    (':' :: (label ++ rest)) isLetters (by simp [isWordLetter, isLower, isUpper])
  obtain ⟨takenLabel, -⟩ := span_letters isLabel (stops_of_isSpace isApart)
  have notEmpty : label.isEmpty = false := by
    simpa using someLabel
  rw [lexeme_of_isWordLetter (isWordLetter_of_isUpper upper),
    if_neg (by simp [isLower_of_isUpper upper]), if_pos upper,
    List.append_assoc, List.cons_append]
  unfold upperLexeme
  simp only [taken, left, takenLabel, notEmpty]
  rw [if_neg (by simp), ← spelt, String.ofList_toList, List.length_append,
    List.length_cons, Nat.add_assoc, Nat.add_comm 1]

theorem lexes_arrow : Lexes "->".toList .arrow := by
  refine ⟨'-', ['>'], by rfl, fun line rest _ => ?_⟩
  simp [lexeme, isSpace]

theorem lexes_mark
    {mark : Char}
    {name : String}
    (isMark : (mark, name) ∈ markNames) :
    Lexes [mark] (.terminal name) := by
  have isListed : ∀ pair ∈ markNames,
      isSpace pair.1 = false ∧ isLower pair.1 = false ∧
        isUpper pair.1 = false ∧ markNames.lookup pair.1 = some pair.2 := by
    decide
  obtain ⟨notSpace, notLower, notUpper, isName⟩ := isListed _ isMark
  refine ⟨mark, [], rfl, fun line rest isApart => ?_⟩
  have notHyphen : rest.head? ≠ some '-' := fun isHead =>
    absurd (isApart '-' isHead) (by decide)
  have notAngle : rest.head? ≠ some '>' := fun isHead =>
    absurd (isApart '>' isHead) (by decide)
  have isToken : markLexeme line mark = .ok ⟨some (.terminal name), 0⟩ := by
    rw [markLexeme, isName]
  rw [List.nil_append, lexeme, if_neg (by simp [notSpace]),
    if_neg (by simp [notHyphen]), if_neg (by simp [notAngle])]
  split
  · next isPercent =>
      have noLetters : rest.takeWhile isDirectiveLetter = [] :=
        (@span_letters isDirectiveLetter [] rest (by simp)
          (directive_stops_of_isSpace isApart)).1
      subst isPercent
      simp only [directiveLexeme, noLetters]
      exact isToken
  · rw [if_neg (by simp [notLower]), if_neg (by simp [notUpper])]
    exact isToken

theorem lexes_directive
    {text : String}
    {token : Token}
    (isDirective : directive? text = some token)
    (letters : List Char)
    (spelt : text.toList = '%' :: letters)
    (nonempty : letters ≠ [])
    (isLetters : ∀ letter ∈ letters, isDirectiveLetter letter = true) :
    Lexes text.toList token := by
  refine ⟨'%', letters, spelt, fun line rest isApart => ?_⟩
  obtain ⟨taken, -⟩ :=
    span_letters isLetters (directive_stops_of_isSpace isApart)
  have notEmpty : letters.isEmpty = false := by
    simpa using nonempty
  have isText : String.ofList ('%' :: letters) = text := by
    rw [← spelt, String.ofList_toList]
  simp only [lexeme, isSpace, directiveLexeme, taken, notEmpty, isText,
    isDirective]
  simp

/-! ## Symbols -/

/-- The token of a symbol. -/
def Reference.token (reference : Reference) : Token :=
  if reference.isNonTerminal then
    .nonTerminal reference.name
  else
    .terminal reference.name

theorem lexes_symbol
    {reference : Reference}
    {word : List Char}
    (writes : WritesSymbol reference word) :
    Lexes word reference.token := by
  cases writes with
  | terminal isName => exact lexes_lowerName isName
  | mark isMark => exact lexes_mark isMark
  | lineBreak =>
      exact lexes_directive (by rfl) ['n', 'l'] (by simp) (by simp)
        (by simp [isDirectiveLetter, isLower])
  | noLineBreak =>
      exact lexes_directive (by rfl) ['n', 'o', 'n', 'l'] (by simp) (by simp)
        (by simp [isDirectiveLetter, isLower])
  | nonTerminal isName => exact lexes_upperName isName

theorem references?_token (body : List Reference) :
    references? (body.map Reference.token) = some body := by
  induction body with
  | nil => rfl
  | cons reference rest inductionHypothesis =>
      obtain ⟨name, isNonTerminal⟩ := reference
      cases isNonTerminal with
      | false => simp [Reference.token, references?, inductionHypothesis]
      | true => simp [Reference.token, references?, inductionHypothesis]

theorem terminalNames?_terminal (names : List String) :
    terminalNames? (names.map Token.terminal) = some names := by
  induction names with
  | nil => rfl
  | cons name rest inductionHypothesis =>
      simp [terminalNames?, inductionHypothesis]

/-! ## Lines -/

theorem tokenize_gap
    {gap : List Char}
    (isGap : IsGap gap)
    (line : Nat)
    (rest : List Char) :
    tokenize line (gap ++ rest) = tokenize line rest := by
  induction gap with
  | nil => rfl
  | cons space others inductionHypothesis =>
      obtain ⟨isSpaceHere, isGapThere⟩ := List.forall_mem_cons.mp isGap
      rw [List.cons_append, tokenize, lexeme, if_pos isSpaceHere]
      refine bind_of_ok rfl ?_
      dsimp only
      rw [List.drop_zero, inductionHypothesis isGapThere]
      cases tokenize line rest <;> rfl

/-- A word is one token, and the rest of the line is read after it. -/
theorem tokenize_word
    {word rest : List Char}
    {token : Token}
    {tokens : List Token}
    {line : Nat}
    (lexes : Lexes word token)
    (isApart : ∀ character ∈ rest.head?, isSpace character = true)
    (others : tokenize line rest = .ok tokens) :
    tokenize line (word ++ rest) = .ok (token :: tokens) := by
  obtain ⟨first, letters, rfl, reads⟩ := lexes
  rw [List.cons_append, tokenize]
  refine bind_of_ok (reads line rest isApart) ?_
  dsimp only
  rw [List.drop_left]
  exact bind_of_ok others rfl

/-- The words of a line are its tokens. -/
theorem tokenize_spread
    {words : List (List Char)}
    {tokens : List Token}
    {content : List Char}
    (spread : Spread words content)
    (lexes : List.Forall₂ Lexes words tokens)
    (line : Nat) :
    tokenize line content = .ok tokens := by
  induction spread generalizing tokens with
  | @nil gap isGap =>
      cases lexes
      rw [← List.append_nil gap, tokenize_gap isGap, tokenize]
  | cons isGap isApart _ inductionHypothesis =>
      cases lexes with
      | cons lexesWord lexesRest =>
          rw [tokenize_gap isGap]
          exact tokenize_word lexesWord isApart (inductionHypothesis lexesRest)

theorem tokenize_filler
    {content : List Char}
    (isFiller : Filler content)
    (line : Nat) :
    tokenize line content = .ok [] := by
  cases isFiller with
  | blank isGap => exact tokenize_spread (.nil isGap) .nil line
  | @comment gap text isGap _ =>
      rw [tokenize_gap isGap, tokenize, lexeme, if_neg (by decide),
        if_pos (by simp)]
      refine bind_of_ok rfl ?_
      dsimp only
      rw [List.drop_length, tokenize]
      rfl

/-- The tokens of some symbols are read from their words. -/
theorem lexes_symbols
    {references : List Reference}
    {words : List (List Char)}
    (writes : List.Forall₂ WritesSymbol references words) :
    List.Forall₂ Lexes words (references.map Reference.token) :=
  List.forall₂_map_right_iff.mpr
    (writes.flip.imp fun _ _ isWritten => lexes_symbol isWritten)

theorem lexes_names
    {names : List String}
    {words : List (List Char)}
    (writes : WritesNames names words) :
    List.Forall₂ Lexes words (names.map Token.terminal) := by
  have lexes := lexes_symbols writes
  rw [List.map_map] at lexes
  exact lexes

/-- What the words of a statement need in order to be read as such. -/
def Readable : Statement → Prop
  | .production label head _ =>
      (∀ name ∈ label, IsLowerName name) ∧ IsUpperName head
  | .start head => IsUpperName head
  | .shiftOn production symbols | .reduceOn production symbols =>
      IsRuleName production ∧ symbols ≠ []

theorem overrideNames?_terminal
    {names : List String}
    (nonempty : names ≠ []) :
    overrideNames? (names.map Token.terminal) = some names := by
  have notEmpty : (names.map Token.terminal).isEmpty = false := by
    simpa using nonempty
  rw [overrideNames?, notEmpty, terminalNames?_terminal]
  rfl

/-- The tokens of a line with a statement are those of the statement. -/
theorem tokenize_statement
    {statement : Statement}
    {content : List Char}
    (writes : WritesStatement statement content)
    (readable : Readable statement)
    (line : Nat) :
    ∃ first rest, tokenize line content = .ok (first :: rest) ∧
      statement? (first :: rest) = some statement := by
  cases writes with
  | @production label head body words _ writes spread =>
      obtain ⟨isLabel, isHead⟩ := readable
      have lexesRule : List.Forall₂ Lexes
          (head.toList :: "->".toList :: words)
          (.nonTerminal head :: .arrow :: body.map Reference.token) :=
        .cons (lexes_upperName isHead) (.cons lexes_arrow (lexes_symbols writes))
      cases label with
      | none =>
          refine ⟨_, _, tokenize_spread spread lexesRule line, ?_⟩
          rw [statement?, references?_token]
          rfl
      | some label =>
          refine ⟨_, _, tokenize_spread spread
            (.cons (lexes_label (isLabel label rfl)) lexesRule) line, ?_⟩
          rw [statement?, references?_token]
          rfl
  | start spread =>
      have lexes : Lexes "%start".toList .start :=
        lexes_directive (by rfl) ['s', 't', 'a', 'r', 't'] (by simp) (by simp)
          (by simp [isDirectiveLetter, isLower])
      exact ⟨_, _, tokenize_spread spread
        (.cons lexes (.cons (lexes_upperName readable) .nil)) line, rfl⟩
  | shiftOn writes spread =>
      obtain ⟨isRule, nonempty⟩ := readable
      have lexes : Lexes "%shift_on".toList .shiftOn :=
        lexes_directive (by rfl) ['s', 'h', 'i', 'f', 't', '_', 'o', 'n']
          (by simp) (by simp) (by simp [isDirectiveLetter, isLower])
      refine ⟨_, _, tokenize_spread spread (.cons lexes
        (.cons (lexes_ruleName isRule) (lexes_names writes))) line, ?_⟩
      rw [statement?, overrideNames?_terminal nonempty]
      rfl
  | reduceOn writes spread =>
      obtain ⟨isRule, nonempty⟩ := readable
      have lexes : Lexes "%reduce_on".toList .reduceOn :=
        lexes_directive (by rfl)
          ['r', 'e', 'd', 'u', 'c', 'e', '_', 'o', 'n']
          (by simp) (by simp) (by simp [isDirectiveLetter, isLower])
      refine ⟨_, _, tokenize_spread spread (.cons lexes
        (.cons (lexes_ruleName isRule) (lexes_names writes))) line, ?_⟩
      rw [statement?, overrideNames?_terminal nonempty]
      rfl

/-! ## The section -/

/-- The lines of a section give the statements in order. -/
theorem statements_of_writes
    {written : List Statement}
    {lines : List (List Char)}
    (writes : WritesStatements written lines)
    (readable : ∀ statement ∈ written, Readable statement)
    (number : Nat) :
    ∃ tokens, tokenizeLines number lines = .ok tokens ∧
      statements tokens = .ok written := by
  induction writes generalizing number with
  | nil => exact ⟨[], rfl, rfl⟩
  | filler isFiller _ inductionHypothesis =>
      obtain ⟨tokens, tokenized, read⟩ :=
        inductionHypothesis readable (number + 1)
      exact ⟨[] :: tokens,
        bind_of_ok (tokenize_filler isFiller number) (bind_of_ok tokenized rfl),
        read⟩
  | statement writes _ inductionHypothesis =>
      obtain ⟨isReadable, others⟩ := List.forall_mem_cons.mp readable
      obtain ⟨tokens, tokenized, read⟩ :=
        inductionHypothesis others (number + 1)
      obtain ⟨first, rest, tokenizedHere, isStatement⟩ :=
        tokenize_statement writes isReadable number
      refine ⟨(first :: rest) :: tokens,
        bind_of_ok tokenizedHere (bind_of_ok tokenized rfl), ?_⟩
      rw [statements, isStatement]
      · exact bind_of_ok read rfl
      · exact List.cons_ne_nil _ _

/-! ## Line feeds -/

theorem notMem_lineFeed_of_isWord
    {isStart : Char → Bool}
    {word : List Char}
    (isWord : IsWord isStart isWordLetter word)
    (startIsLetter : ∀ {letter}, isStart letter = true →
      isWordLetter letter = true) :
    '\n' ∉ word :=
  fun member => absurd (isWord.letters startIsLetter _ member) (by decide)

theorem WritesSymbol.notMem_lineFeed
    {reference : Reference}
    {word : List Char}
    (writes : WritesSymbol reference word) :
    '\n' ∉ word := by
  cases writes with
  | terminal isName =>
      exact notMem_lineFeed_of_isWord isName isWordLetter_of_isLower
  | mark isMark =>
      have noMark : ∀ pair ∈ markNames, pair.1 ≠ '\n' := by decide
      simpa using (noMark _ isMark).symm
  | lineBreak | noLineBreak => simp
  | nonTerminal isName =>
      exact notMem_lineFeed_of_isWord isName isWordLetter_of_isUpper

theorem notMem_lineFeed_of_writesSymbols
    {references : List Reference}
    {words : List (List Char)}
    (writes : List.Forall₂ WritesSymbol references words) :
    ∀ word ∈ words, '\n' ∉ word := by
  induction writes with
  | nil => exact fun _ member => absurd member List.not_mem_nil
  | cons writes _ inductionHypothesis =>
      exact List.forall_mem_cons.mpr
        ⟨writes.notMem_lineFeed, inductionHypothesis⟩

theorem IsRuleName.notMem_lineFeed
    {name : String}
    (isName : IsRuleName name) :
    '\n' ∉ name.toList := by
  obtain ⟨head, label, spelt, isHead, -, isLabel⟩ := isName
  rw [spelt]
  simp only [List.mem_append, List.mem_cons, not_or]
  exact ⟨notMem_lineFeed_of_isWord isHead isWordLetter_of_isUpper, by decide,
    fun member => absurd (isLabel _ member) (by decide)⟩

theorem Spread.notMem_lineFeed
    {words : List (List Char)}
    {content : List Char}
    (spread : Spread words content)
    (absent : ∀ word ∈ words, '\n' ∉ word) :
    '\n' ∉ content := by
  induction spread with
  | nil isGap => exact isGap.notMem (by decide)
  | cons isGap _ _ inductionHypothesis =>
      obtain ⟨absentHere, absentThere⟩ := List.forall_mem_cons.mp absent
      simp only [List.mem_append, not_or]
      exact ⟨isGap.notMem (by decide), absentHere,
        inductionHypothesis absentThere⟩

theorem WritesStatement.notMem_lineFeed
    {statement : Statement}
    {content : List Char}
    (writes : WritesStatement statement content)
    (readable : Readable statement) :
    '\n' ∉ content := by
  cases writes with
  | @production label head body words _ writes spread =>
      obtain ⟨isLabel, isHead⟩ := readable
      have noHead := notMem_lineFeed_of_isWord isHead isWordLetter_of_isUpper
      have noRule : ∀ word ∈ head.toList :: "->".toList :: words,
          '\n' ∉ word :=
        List.forall_mem_cons.mpr ⟨noHead, List.forall_mem_cons.mpr
          ⟨by simp, notMem_lineFeed_of_writesSymbols writes⟩⟩
      refine spread.notMem_lineFeed (List.forall_mem_append.mpr ⟨?_, noRule⟩)
      cases label with
      | none => exact fun _ member => absurd member List.not_mem_nil
      | some label =>
          have noLabel := notMem_lineFeed_of_isWord (isLabel label rfl)
            isWordLetter_of_isLower
          simpa [labelWords] using noLabel
  | start spread =>
      have noHead := notMem_lineFeed_of_isWord readable isWordLetter_of_isUpper
      exact spread.notMem_lineFeed (by simpa using noHead)
  | shiftOn writes spread | reduceOn writes spread =>
      refine spread.notMem_lineFeed (List.forall_mem_cons.mpr ⟨by simp,
        List.forall_mem_cons.mpr ⟨readable.1.notMem_lineFeed, ?_⟩⟩)
      exact notMem_lineFeed_of_writesSymbols writes

/-- The lines of a section fit on lines. -/
theorem WritesStatements.notMem_lineFeed
    {written : List Statement}
    {lines : List (List Char)}
    (writes : WritesStatements written lines)
    (readable : ∀ statement ∈ written, Readable statement) :
    ∀ line ∈ lines, '\n' ∉ line := by
  induction writes with
  | nil => exact fun _ member => absurd member List.not_mem_nil
  | filler isFiller _ inductionHypothesis =>
      exact List.forall_mem_cons.mpr
        ⟨isFiller.notMem_lineFeed, inductionHypothesis readable⟩
  | statement writes _ inductionHypothesis =>
      obtain ⟨isReadable, others⟩ := List.forall_mem_cons.mp readable
      exact List.forall_mem_cons.mpr
        ⟨writes.notMem_lineFeed isReadable, inductionHypothesis others⟩

end Definition
end ParserGenerator
