import Mathlib
import ParserGenerator.Proofs.CharSet
import ParserGenerator.Proofs.Definition.Assembling

/-!
# Loading what is written

A text that a source is written as is loaded as the grammar and the goal of the
source. The lines of the two sections give back the terminals and the statements
of the source, and what these declare is assembled.
-/

namespace ParserGenerator
namespace Definition
namespace Source

variable [CharacterData] {source : Source}

/-- The symbols of a source are declared in order. -/
theorem declare_eq
    {lines : List TerminalLine}
    (proper : source.Proper)
    (declares : List.Forall₂ TerminalLine.Declares lines source.terminals) :
    (declareTerminals (Grammar.empty source.anyCase) lines >>=
      (declareNonTerminals · source.nonTerminals)) =
        .ok (source.grammarWith []) := by
  have distinct := proper.nodup_symbolNames
  rw [map_name_symbols, ← List.append_assoc] at distinct
  refine bind_of_ok (declareTerminals_eq declares proper.terminals
    (List.nodup_append.mp distinct).1) ?_
  have sameNames : ((Grammar.empty source.anyCase).symbols ++
      (source.terminals.map TerminalSource.symbol).toArray).toList.map
        Symbol.name =
      ["$end", "$nl", "$nonl"] ++
        source.terminals.map TerminalSource.name := by
    simp [Grammar.empty, TerminalSource.symbol]
  rw [declareNonTerminals_eq (by rw [sameNames]; exact distinct)]
  simp [grammarWith, symbols, Grammar.empty]

omit [CharacterData] in
/-- The goal is the symbol of the last start directive or, without any, the head
of the first production. -/
theorem goal_eq
    (someRule : heads source.statements ≠ []) :
    (((starts source.statements).getLast?.map source.number <|> none) <|>
      (none <|> (heads source.statements).head?.map source.number)) =
        some (source.number source.goalName) := by
  obtain ⟨head, others, isHeads⟩ := List.exists_cons_of_ne_nil someRule
  rw [goalName, isHeads]
  cases (starts source.statements).getLast? <;> rfl

/-- What a source declares is assembled. -/
theorem assemble_eq
    {lines : List TerminalLine}
    (proper : source.Proper)
    (declares : List.Forall₂ TerminalLine.Declares lines source.terminals)
    (shorthands : List (String × List Char)) :
    assemble ⟨source.anyCase, lines, shorthands⟩ source.statements =
      .ok source.definition := by
  have isStatement : ∀ statement ∈ source.statements,
      statement ∈ source.statements := fun _ member => member
  obtain ⟨declared, isDeclared, isSymbols⟩ :=
    Grammar.exists_ok_of_bind (declare_eq proper declares)
  have drafted := @foldlM_addStatement source _ [] source.statements proper
    isStatement (fun _ member => absurd member List.not_mem_nil)
    proper.nodup_ruleNames none none
  have overridden :=
    @foldlM_addOverride source _ [] source.statements proper isStatement
  unfold assemble
  rw [nonTerminals_eq]
  refine bind_of_ok isDeclared (bind_of_ok isSymbols ?_)
  refine bind_of_ok drafted (bind_of_ok overridden ?_)
  dsimp only
  rw [goal_eq proper.someRule]
  rfl

end Source

/-! ## Sources can be written -/

/-- Words may be written with a space in front of each. -/
theorem spread_flatMap (words : List (List Char)) :
    Spread words (words.flatMap (' ' :: ·)) := by
  induction words with
  | nil => exact .nil nofun
  | cons word rest inductionHypothesis =>
      have isApart : ∀ character ∈ (rest.flatMap (' ' :: ·)).head?,
          isSpace character = true := by
        cases rest with
        | nil => exact nofun
        | cons next others =>
            rintro _ ⟨⟩
            decide
      exact @Spread.cons [' '] word _ rest (by simp [IsGap, isSpace]) isApart
        inductionHypothesis

theorem padded_self (content : List Char) : Padded content content := by
  have padded := @Padded.intro content [] [] nofun nofun
  rwa [List.nil_append, List.append_nil] at padded

theorem exists_writesFlags (options : TerminalOptions) :
    ∃ written, WritesFlags options written := by
  have ofFlags {flags : List String}
      (nonempty : flags ≠ [])
      (known : ∀ flag ∈ flags, flag = "lazy" ∨ flag = "skip") :
      ∃ written, WritesFlags ⟨"lazy" ∈ flags, "skip" ∈ flags⟩ written :=
    ⟨_, @WritesFlags.some flags (flags.map String.toList) [] nonempty known
      (List.forall₂_map_right_iff.mpr
        (List.forall₂_same.mpr fun flag _ => padded_self _)) nofun⟩
  obtain ⟨isLazy, isTrivia⟩ := options
  cases isLazy <;> cases isTrivia
  · exact ⟨[], .none⟩
  · exact @ofFlags ["skip"] (by simp) (by simp)
  · exact @ofFlags ["lazy"] (by simp) (by simp)
  · exact @ofFlags ["lazy", "skip"] (by simp) (by simp)

theorem exists_writesTerminals
    (anyCase : Bool)
    (terminals : List TerminalSource) :
    ∃ lines, WritesTerminals anyCase terminals lines := by
  induction terminals with
  | nil =>
      cases anyCase with
      | false => exact ⟨[], .nil⟩
      | true => exact ⟨_, .anyCase (padded_self _) .nil⟩
  | cons terminal rest inductionHypothesis =>
      obtain ⟨lines, writes⟩ := inductionHypothesis
      obtain ⟨flags, writesFlags⟩ := exists_writesFlags terminal.options
      exact ⟨_, .terminal (@WritesTerminal.intro _ [] [] flags _ nofun nofun
        writesFlags (padded_self _)) writes⟩

/-- All symbols can be written if each of them can. -/
theorem exists_writesSymbols
    {references : List Reference}
    (writable : ∀ reference ∈ references,
      ∃ word, WritesSymbol reference word) :
    ∃ words, List.Forall₂ WritesSymbol references words := by
  induction references with
  | nil => exact ⟨[], .nil⟩
  | cons reference rest inductionHypothesis =>
      obtain ⟨⟨word, here⟩, there⟩ := List.forall_mem_cons.mp writable
      obtain ⟨words, writes⟩ := inductionHypothesis there
      exact ⟨word :: words, .cons here writes⟩

namespace Source

variable [CharacterData] {source : Source}

theorem Proper.exists_writesTerminal
    {name : String}
    (proper : source.Proper)
    (known : name ∈ source.terminalNames) :
    ∃ word, WritesSymbol ⟨name, false⟩ word := by
  rcases List.mem_append.mp known with isMarker | isTerminal
  · rcases List.mem_pair.mp isMarker with rfl | rfl
    · exact ⟨_, .lineBreak⟩
    · exact ⟨_, .noLineBreak⟩
  · obtain ⟨terminal, isDeclared, rfl⟩ := List.mem_map.mp isTerminal
    exact ⟨_, .terminal (proper.terminals terminal isDeclared).name⟩

theorem Proper.exists_writesNames
    {names : List String}
    (proper : source.Proper)
    (known : ∀ name ∈ names, name ∈ source.terminalNames) :
    ∃ words, WritesNames names words := by
  refine exists_writesSymbols fun reference member => ?_
  obtain ⟨name, isName, rfl⟩ := List.mem_map.mp member
  exact proper.exists_writesTerminal (known name isName)

theorem Proper.exists_writesStatement
    {statement : Statement}
    (proper : source.Proper)
    (isProper : source.ProperStatement statement) :
    ∃ line, WritesStatement statement line := by
  cases statement with
  | production label head body =>
      have writable : ∀ reference ∈ body, ∃ word,
          WritesSymbol reference word := by
        rintro ⟨name, isNonTerminal⟩ inBody
        have isKnown := isProper.2.2 _ inBody
        cases isNonTerminal with
        | false => exact proper.exists_writesTerminal isKnown
        | true => exact ⟨_, .nonTerminal isKnown⟩
      obtain ⟨words, writes⟩ := exists_writesSymbols writable
      exact ⟨_, .production writes (spread_flatMap _)⟩
  | start head => exact ⟨_, .start (spread_flatMap _)⟩
  | shiftOn production symbols =>
      obtain ⟨words, writes⟩ := proper.exists_writesNames isProper.2.2
      exact ⟨_, .shiftOn writes (spread_flatMap _)⟩
  | reduceOn production symbols =>
      obtain ⟨words, writes⟩ := proper.exists_writesNames isProper.2.2
      exact ⟨_, .reduceOn writes (spread_flatMap _)⟩

theorem Proper.exists_writesStatements
    {statements : List Statement}
    (proper : source.Proper)
    (areProper : ∀ statement ∈ statements, source.ProperStatement statement) :
    ∃ lines, WritesStatements statements lines := by
  induction statements with
  | nil => exact ⟨[], .nil⟩
  | cons statement rest inductionHypothesis =>
      obtain ⟨here, there⟩ := List.forall_mem_cons.mp areProper
      obtain ⟨line, writesHere⟩ := proper.exists_writesStatement here
      obtain ⟨lines, writesThere⟩ := inductionHypothesis there
      exact ⟨line :: lines, .statement writesHere writesThere⟩

/-- Each source can be written. -/
theorem Proper.exists_writes (proper : source.Proper) :
    ∃ text, source.Writes text := by
  obtain ⟨terminalLines, writesTerminals⟩ :=
    exists_writesTerminals source.anyCase source.terminals
  obtain ⟨productionLines, writesStatements⟩ :=
    proper.exists_writesStatements proper.statements
  exact ⟨_, .intro writesTerminals (padded_self _) writesStatements
    String.toList_ofList⟩

/-! ## A definition of sums -/

/-- Sums of two parts that end a line, and words that are skipped. -/
def sums : Source where
  anyCase := true
  terminals :=
    [⟨"word", "a+", .repeat (.text "a") .oneOrMore, ⟨true, true⟩⟩,
      ⟨"plus", "\\+", .text "+", ⟨false, false⟩⟩]
  statements :=
    [.start "Sum",
      .production (some "two") "Sum"
        [⟨"Part", true⟩, ⟨"plus", false⟩, ⟨"Part", true⟩, ⟨"$nl", false⟩],
      .production none "Sum" [⟨"word", false⟩],
      .shiftOn "Sum:two" ["plus"],
      .reduceOn "Sum:2" ["word"]]

/-- The text of a definition of sums. -/
def sumsText : String :=
  "\n".intercalate
    ["%case_insensitive", "-- Words and signs", "word : <lazy, skip> a+",
      "plus:\\+", "", "%%", " %start Sum", " two: Sum -> Part + Part %nl",
      "-- Otherwise", " Sum -> word", " %shift_on Sum:two +",
      " %reduce_on Sum:2 word"]

omit [CharacterData] in
theorem not_refersToShorthand_of_notMem
    {characters : List Char}
    (absent : '\x7b' ∉ characters) :
    ¬ RefersToShorthand characters := by
  rintro ⟨before, gap, name, otherGap, after, rfl, -⟩
  simp at absent

omit [CharacterData] in
theorem isWord_of_all
    {isStart isLetter : Char → Bool}
    {first : Char}
    {letters : List Char}
    (spelt : (isStart first && letters.all isLetter) = true) :
    IsWord isStart isLetter (first :: letters) := by
  obtain ⟨isFirst, areLetters⟩ := Bool.and_eq_true_iff.mp spelt
  exact ⟨first, letters, rfl, isFirst, List.all_eq_true.mp areLetters⟩

theorem proper_sums : sums.Proper := by
  have isPlain {text : String} (absent : '\x7b' ∉ text.toList) :
      ¬ RefersToShorthand text.toList :=
    not_refersToShorthand_of_notMem absent
  constructor
  · refine List.forall_mem_cons.mpr ⟨?_, List.forall_mem_singleton.mpr ?_⟩
    · exact ⟨isWord_of_all (by decide), by cbv, by decide, by simp,
        by decide +kernel, by simp, isPlain (by simp)⟩
    · exact ⟨isWord_of_all (by decide), by cbv, by decide, by simp,
        by decide +kernel, by simp, isPlain (by simp)⟩
  · decide
  · have isUpper : IsUpperName "Sum" ∧ IsUpperName "Part" :=
      ⟨isWord_of_all (by decide), isWord_of_all (by decide)⟩
    have isLower : IsLowerName "two" := isWord_of_all (by decide)
    simp only [sums, List.forall_mem_cons, ProperStatement]
    refine ⟨by decide +kernel, ⟨?_, isUpper.1, ?_⟩, ⟨?_, isUpper.1, ?_⟩,
      by decide +kernel, by decide +kernel, ?_⟩
    · simp [isLower]
    · simp [isUpper, terminalNames]
    · simp
    · simp [terminalNames]
    · simp
  · decide
  · decide

omit [CharacterData] in
theorem writes_sums : sums.Writes sumsText := by
  have noGap : IsGap [] := nofun
  have space : IsGap [' '] := by simp [IsGap, isSpace]
  have flags : WritesFlags ⟨true, true⟩ "<lazy, skip> ".toList :=
    @WritesFlags.some ["lazy", "skip"] ["lazy".toList, " skip".toList] [' ']
      (by simp) (by simp)
      (.cons (padded_self _) (.cons (@Padded.intro _ [' '] [] space noGap) .nil))
      space
  have terminals := WritesTerminals.anyCase (padded_self _) <|
    .filler (@Filler.comment [] " Words and signs".toList noGap (by simp)) <|
    .terminal (@WritesTerminal.intro
      ⟨"word", "a+", .repeat (.text "a") .oneOrMore, ⟨true, true⟩⟩
      [' '] [' '] _ _ space space flags (padded_self _)) <|
    .terminal (@WritesTerminal.intro
      ⟨"plus", "\\+", .text "+", ⟨false, false⟩⟩
      [] [] _ _ noGap noGap .none (padded_self _)) <|
    .filler (.blank noGap) .nil
  have part : WritesSymbol ⟨"Part", true⟩ "Part".toList :=
    .nonTerminal (isWord_of_all (by decide))
  have plus : WritesSymbol ⟨"plus", false⟩ ['+'] := .mark (by decide)
  have word : WritesSymbol ⟨"word", false⟩ "word".toList :=
    .terminal (isWord_of_all (by decide))
  have statements : WritesStatements sums.statements _ :=
    .statement (.start (spread_flatMap _)) <|
    .statement (.production (.cons part (.cons plus (.cons part
      (.cons .lineBreak .nil)))) (spread_flatMap _)) <|
    .filler (@Filler.comment [] " Otherwise".toList noGap (by simp)) <|
    .statement (.production (.cons word .nil) (spread_flatMap _)) <|
    .statement (.shiftOn (.cons plus .nil) (spread_flatMap _)) <|
    .statement (.reduceOn (.cons word .nil) (spread_flatMap _)) .nil
  exact .intro terminals (padded_self _) statements (by decide +kernel)

/-! ## Loading -/

/-- A source that is written is loaded. -/
theorem load_of_writes
    {text : String}
    (proper : source.Proper)
    (writes : source.Writes text) :
    load text = .ok source.definition := by
  obtain @⟨terminalLines, productionLines, divider, _, writesTerminals, divides,
    writesStatements, lines⟩ := writes
  have undivided := writesTerminals.undivided proper.terminals
  have oneLine : ∀ line ∈ terminalLines ++ divider :: productionLines,
      '\n' ∉ line :=
    List.forall_mem_append.mpr ⟨fun line member => (undivided line member).1,
      List.forall_mem_cons.mpr ⟨divides.notMem (by decide) (by decide),
        writesStatements.notMem_lineFeed proper.readable⟩⟩
  have isDivider : Text.trimmed divider = ['%', '%'] :=
    divides.trimmed ⟨by simp [Text.isBlank], by simp [Text.isBlank]⟩
  have sections : splitSections 1 (Text.lines text) =
      .ok (terminalLines, productionLines, 1 + terminalLines.length + 1) := by
    rw [Text.lines, lines, Text.splitAt_intercalate (by simp) oneLine]
    exact splitSections_append 1 (fun line member => (undivided line member).2)
      isDivider
  obtain ⟨declarations, readsTerminals, declares⟩ :=
    @readTerminalLines_of_writes _ _ _ _ ⟨false, [], []⟩ writesTerminals
      proper.terminals proper.distinct 1
  rw [Bool.false_or, List.nil_append] at readsTerminals
  obtain ⟨tokens, tokenized, readsStatements⟩ :=
    statements_of_writes writesStatements proper.readable
      (1 + terminalLines.length + 1)
  unfold load
  refine bind_of_ok sections (bind_of_ok readsTerminals ?_)
  refine bind_of_ok tokenized (bind_of_ok readsStatements ?_)
  exact assemble_eq proper declares []

omit [CharacterData] in
theorem load_of_writes_sums :
    @Proper .ascii sums ∧ sums.Writes sumsText ∧
      @load .ascii sumsText = .ok sums.definition := by
  let _ : CharacterData := .ascii
  exact ⟨proper_sums, writes_sums, load_of_writes proper_sums writes_sums⟩

end Source
end Definition
end ParserGenerator
