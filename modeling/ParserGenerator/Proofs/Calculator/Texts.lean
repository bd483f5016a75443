import ParserGenerator.Proofs.Calculator.Programs
import ParserGenerator.Proofs.Cutting

/-!
# Texts that the calculator evaluates

What the evaluation of a text comes to, from the tokens of the text alone: the
results of the program that they spell, or a failure. The tokens of a text can
be told from its lexemes, so that single texts can be followed through.
-/

open ParserGenerator.Parse

namespace ParserGenerator
namespace Calculator

open Table (Rules)

/-! ## Values of programs -/

/-- Why the evaluation of a program may fail. -/
def Failure.OfEvaluation : Failure → Prop
  | .integer _ => True
  | .symbol (.unassigned _) => True
  | .divisionByZero => True
  | .overflow => True
  | _ => False

/-- A result that is there or is missing for such a reason. -/
def Evaluated {Result : Type} : Except Failure Result → Prop
  | .ok _ => True
  | .error failure => failure.OfEvaluation

theorem Evaluated.bind
    {Result Other : Type}
    {result : Except Failure Result}
    {next : Result → Except Failure Other}
    (evaluated : Evaluated result)
    (nextEvaluated : ∀ value, Evaluated (next value)) :
    Evaluated (result >>= next) := by
  cases result with
  | ok value => exact nextEvaluated value
  | error failure => exact evaluated

theorem evaluated_bounded (number : Int) : Evaluated (bounded number) := by
  unfold bounded
  split <;> exact trivial

theorem Operator.evaluated_apply (operator : Operator) (left right : Int) :
    Evaluated (operator.apply left right) := by
  cases operator with
  | add | subtract | multiply => exact evaluated_bounded _
  | divide =>
      rw [apply]
      split
      · exact trivial
      · exact evaluated_bounded _

theorem Expression.evaluated_value
    (environment : Environment)
    (expression : Expression) :
    Evaluated (expression.value environment) := by
  induction expression with
  | number text =>
      rw [value]
      split <;> exact trivial
  | name text =>
      rw [value]
      split <;> exact trivial
  | negation operand inductionHypothesis =>
      exact inductionHypothesis.bind fun _ => evaluated_bounded _
  | binary operator left right leftHypothesis rightHypothesis =>
      exact leftHypothesis.bind fun _ => rightHypothesis.bind fun _ =>
        operator.evaluated_apply _ _

theorem Statement.evaluated_result
    (environment : Environment)
    (statement : Statement) :
    Evaluated (statement.result environment) := by
  cases statement with
  | empty => exact trivial
  | expression inner =>
      exact (inner.evaluated_value environment).bind fun _ => trivial
  | assignment name inner =>
      exact (inner.evaluated_value environment).bind fun _ => trivial

/-- A program has a result for each statement, or fails for one of the reasons
for which an evaluation may fail. -/
theorem Program.evaluated_run (environment : Environment) (program : Program) :
    match (program.run environment).1 with
    | .ok results => results.length = program.length
    | .error failure => failure.OfEvaluation := by
  induction program generalizing environment with
  | nil => rfl
  | cons statement rest inductionHypothesis =>
      have evaluated := statement.evaluated_result environment
      rw [run]
      cases performed : statement.result environment with
      | error failure =>
          rw [performed] at evaluated
          exact evaluated
      | ok pair =>
          have later := inductionHypothesis pair.2
          dsimp only
          cases ran : (Program.run pair.2 rest).1 with
          | error failure => simpa [ran, Except.map] using later
          | ok results => simpa [ran, Except.map] using later

/-! ## Texts that are followed through -/

theorem normal_lexicalTerminals :
    ∀ terminal ∈ grammar.lexicalTerminals, terminal.pattern.Normal := by
  have patterns : grammar.lexicalTerminals.map Lexical.Terminal.pattern =
      [.repeat (oneOf [⟨48, 57⟩] 0) .oneOrMore,
        .concat [oneOf [⟨95, 95⟩] 31,
          .repeat (oneOf [⟨95, 95⟩] 287) .zeroOrMore],
        .text "+", .text "-", .text "*", .text "/", .text "=", .text "(",
        .text ")", .text ";",
        .repeat (oneOf [⟨9, 10⟩, ⟨13, 13⟩, ⟨32, 32⟩] 0) .oneOrMore,
        .concat [.text "//", .repeat (.set (.except
          ⟨⟨[]⟩, ⟨939524095⟩⟩ (.plain ⟨⟨[⟨10, 10⟩]⟩, ⟨0⟩⟩))) .zeroOrMore]] :=
    rfl
  have blanks : RangeList.Apart [⟨9, 10⟩, ⟨13, 13⟩, ⟨32, 32⟩] :=
    ⟨by decide, by decide⟩
  rw [← List.forall_mem_map (P := Pattern.Normal), patterns]
  simp [Pattern.Normal, Pattern.AllNormal, oneOf, CharSet.Normal,
    RangeList.Normal, RangeList.Apart.nil, RangeList.Apart.singleton, blanks]

/-- The tokens of a text in ASCII are those of its lexemes, which are listed
with the numbers of their terminals. -/
theorem tokens_of_lexemes
    (trackLines : Bool)
    (text : String)
    (lexemes : List (Nat × String))
    {tokens : List Token}
    (isText : lexemes.flatMap (fun lexeme => Text.encode lexeme.2) =
      Text.encode text)
    (cut : ∀ lexeme ∈ Lexeme.inTurn 0
        (lexemes.map (Prod.map id Text.encode)),
      lexeme.units ≠ [] ∧
        lexeme.units <+: (Text.encode text).drop lexeme.start ∧
        @Lexical.MaximalMunch .ascii false
          ((Text.encode text).drop lexeme.start) grammar.lexicalTerminals
          (.found lexeme.terminal lexeme.units.length) ∧
        (@Lexicon.ofGrammar .ascii grammar).symbol lexeme.terminal ≠
          Grammar.endSymbol)
    (areTokens : (@Lexicon.ofGrammar .ascii grammar).tokensOf
        (Text.encode text).length false
        (Lexeme.inTurn 0 (lexemes.map (Prod.map id Text.encode))) = tokens) :
    (@Scanner.tokens .ascii (@Lexicon.ofGrammar .ascii grammar) trackLines
      none (Text.encode text)).tokens.map Prod.fst = tokens := by
  have isWhole : (lexemes.map (Prod.map id Text.encode)).flatMap Prod.snd =
      Text.encode text := by
    rw [List.flatMap_map, ← isText]
    rfl
  rw [← areTokens]
  exact @Scanner.tokens_of_pieces .ascii grammar _
    CharacterData.surrogatesApart_ascii normal_lexicalTerminals trackLines
    _ isWhole cut

section Spellings

variable {tokens leftTokens rightTokens : List Token}
  {inner left right : Expression} (position : Nat) (lineBreak : Bool)

theorem spells_number (text : String) :
    Expression.Spells grammar .factor (.number text)
      [⟨3, text, position, lineBreak⟩] :=
  .number (rfl : grammar.name (Token.symbol ⟨3, text, position, lineBreak⟩) = _)

theorem spells_name (text : String) :
    Expression.Spells grammar .factor (.name text)
      [⟨4, text, position, lineBreak⟩] :=
  .name (rfl : grammar.name (Token.symbol ⟨4, text, position, lineBreak⟩) = _)

theorem Operator.spells
    (operator : Operator)
    (text : String)
    (leftSpells : left.Spells grammar operator.level leftTokens)
    (rightSpells : right.Spells grammar operator.rightLevel rightTokens) :
    Expression.Spells grammar operator.level (.binary operator left right)
      (leftTokens ++
        ⟨operator.symbol, text, position, lineBreak⟩ :: rightTokens) := by
  refine .binary ?_ leftSpells rightSpells
  cases operator <;> rfl

theorem spells_parentheses
    (stop : Nat)
    (spells : inner.Spells grammar .sum tokens) :
    inner.Spells grammar .factor
      (⟨10, "(", position, lineBreak⟩ :: tokens ++ [⟨11, ")", stop, false⟩]) :=
  .parentheses rfl rfl spells

theorem spells_assignment
    (name : String)
    (equals : Nat)
    (spells : inner.Spells grammar .sum tokens) :
    Statement.Spells grammar (.assignment name inner)
      (⟨4, name, position, lineBreak⟩ :: ⟨9, "=", equals, false⟩ :: tokens) :=
  @Statement.Spells.assignment _ ⟨4, name, position, lineBreak⟩ _ _ _ rfl rfl
    spells

end Spellings

/-- An expression starts with a number, a name, a sign or a parenthesis. -/
theorem Expression.Spells.exists_first
    {level : Level}
    {expression : Expression}
    {tokens : List Token}
    (spells : expression.Spells grammar level tokens) :
    ∃ first rest, tokens = first :: rest ∧
      grammar.name first.symbol ∈
        ["number", "ident", "minus", "leftParen"] := by
  induction spells with
  | number isNumber => exact ⟨_, _, rfl, by simp [isNumber]⟩
  | name isName => exact ⟨_, _, rfl, by simp [isName]⟩
  | negation isSign _ _ => exact ⟨_, _, rfl, by simp [isSign]⟩
  | parentheses isLeft _ _ _ => exact ⟨_, _, rfl, by simp [isLeft]⟩
  | factor _ inductionHypothesis => exact inductionHypothesis
  | product _ inductionHypothesis => exact inductionHypothesis
  | binary _ _ _ leftHypothesis _ =>
      obtain ⟨first, rest, rfl, isFirst⟩ := leftHypothesis
      exact ⟨first, _, rfl, isFirst⟩

/-- A single token that is neither a semicolon nor the start of an expression
spells no program. -/
theorem not_spells_single
    {token : Token}
    (notDivider : grammar.name token.symbol ≠ "semicolon")
    (notFirst : grammar.name token.symbol ∉
      ["number", "ident", "minus", "leftParen"])
    (program : Program) :
    ¬ program.Spells grammar [token] := by
  generalize isTokens : [token] = tokens
  intro spells
  cases spells with
  | single spells =>
      cases spells with
      | empty => cases isTokens
      | expression spells =>
          obtain ⟨first, rest, rfl, isFirst⟩ := spells.exists_first
          obtain ⟨rfl, -⟩ := List.cons.inj isTokens
          exact notFirst isFirst
      | assignment => cases isTokens
  | @more statement _ divider before _ isDivider spells _ =>
      cases before with
      | nil =>
          obtain ⟨rfl, -⟩ := List.cons.inj isTokens
          exact notDivider isDivider
      | cons first others => simp at isTokens

/-- The tokens of two lines: an assignment with a comment after it, and a
quotient. -/
def quotientTokens : List Token :=
  [⟨4, "a", 0, false⟩, ⟨9, "=", 2, false⟩, ⟨3, "1", 4, false⟩,
    ⟨5, "+", 6, false⟩, ⟨3, "2", 8, false⟩, ⟨7, "*", 10, false⟩,
    ⟨3, "3", 12, false⟩, ⟨12, ";", 13, false⟩, ⟨4, "a", 24, true⟩,
    ⟨7, "*", 26, false⟩, ⟨6, "-", 28, false⟩, ⟨10, "(", 29, false⟩,
    ⟨3, "2", 30, false⟩, ⟨6, "-", 32, false⟩, ⟨3, "9", 34, false⟩,
    ⟨11, ")", 35, false⟩, ⟨8, "/", 37, false⟩, ⟨3, "2", 39, false⟩]

theorem tokens_quotient (trackLines : Bool) :
    (@Scanner.tokens .ascii (@Lexicon.ofGrammar .ascii grammar) trackLines
      none (Text.encode
        "a = 1 + 2 * 3; // seven\na * -(2 - 9) / 2")).tokens.map Prod.fst =
      quotientTokens ++ [⟨0, "", 40, false⟩] :=
  tokens_of_lexemes trackLines _
    [(1, "a"), (10, " "), (6, "="), (10, " "), (0, "1"), (10, " "),
      (2, "+"), (10, " "), (0, "2"), (10, " "), (4, "*"), (10, " "),
      (0, "3"), (9, ";"), (10, " "), (11, "// seven"), (10, "\n"),
      (1, "a"), (10, " "), (4, "*"), (10, " "), (3, "-"), (7, "("),
      (0, "2"), (10, " "), (3, "-"), (10, " "), (0, "9"), (8, ")"),
      (10, " "), (5, "/"), (10, " "), (0, "2")]
    (by decide +kernel) (by decide +kernel) (by decide +kernel)

theorem spells_quotient :
    Program.Spells grammar
      [.assignment "a" (.binary .add (.number "1")
          (.binary .multiply (.number "2") (.number "3"))),
        .expression (.binary .divide (.binary .multiply (.name "a")
            (.negation (.binary .subtract (.number "2") (.number "9"))))
          (.number "2"))]
      quotientTokens := by
  have sum := Operator.add.spells 6 false "+"
    (.product (.factor (spells_number 4 false "1")))
    (Operator.multiply.spells 10 false "*"
      (.factor (spells_number 8 false "2")) (spells_number 12 false "3"))
  have difference := Operator.subtract.spells 32 false "-"
    (.product (.factor (spells_number 30 false "2")))
    (.factor (spells_number 34 false "9"))
  have negation := Expression.Spells.negation
    (rfl : grammar.name (Token.symbol ⟨6, "-", 28, false⟩) = _)
    (spells_parentheses 29 false 35 difference)
  have quotient := Operator.divide.spells 37 false "/"
    (Operator.multiply.spells 26 false "*"
      (.factor (spells_name 24 true "a")) negation)
    (spells_number 39 false "2")
  exact Program.Spells.more
    (rfl : grammar.name (Token.symbol ⟨12, ";", 13, false⟩) = _)
    (spells_assignment 0 false "a" 2 sum)
    (.single (.expression (.product quotient)))

/-- The tokens of a division by zero between two assignments. -/
def zeroDivisionTokens : List Token :=
  [⟨4, "b", 0, false⟩, ⟨9, "=", 2, false⟩, ⟨3, "1", 4, false⟩,
    ⟨12, ";", 5, false⟩, ⟨4, "b", 7, false⟩, ⟨8, "/", 9, false⟩,
    ⟨10, "(", 11, false⟩, ⟨4, "b", 12, false⟩, ⟨6, "-", 14, false⟩,
    ⟨4, "b", 16, false⟩, ⟨11, ")", 17, false⟩, ⟨12, ";", 18, false⟩,
    ⟨4, "b", 20, false⟩, ⟨9, "=", 22, false⟩, ⟨3, "2", 24, false⟩]

theorem tokens_zeroDivision (trackLines : Bool) :
    (@Scanner.tokens .ascii (@Lexicon.ofGrammar .ascii grammar) trackLines
      none (Text.encode "b = 1; b / (b - b); b = 2")).tokens.map Prod.fst =
      zeroDivisionTokens ++ [⟨0, "", 25, false⟩] :=
  tokens_of_lexemes trackLines _
    [(1, "b"), (10, " "), (6, "="), (10, " "), (0, "1"), (9, ";"), (10, " "),
      (1, "b"), (10, " "), (5, "/"), (10, " "), (7, "("), (1, "b"), (10, " "),
      (3, "-"), (10, " "), (1, "b"), (8, ")"), (9, ";"), (10, " "), (1, "b"),
      (10, " "), (6, "="), (10, " "), (0, "2")]
    (by decide +kernel) (by decide +kernel) (by decide +kernel)

theorem spells_zeroDivision :
    Program.Spells grammar
      [.assignment "b" (.number "1"),
        .expression (.binary .divide (.name "b")
          (.binary .subtract (.name "b") (.name "b"))),
        .assignment "b" (.number "2")]
      zeroDivisionTokens := by
  have difference := Operator.subtract.spells 14 false "-"
    (.product (.factor (spells_name 12 false "b")))
    (.factor (spells_name 16 false "b"))
  have quotient := Operator.divide.spells 9 false "/"
    (.factor (spells_name 7 false "b"))
    (spells_parentheses 11 false 17 difference)
  exact Program.Spells.more
    (rfl : grammar.name (Token.symbol ⟨12, ";", 5, false⟩) = _)
    (spells_assignment 0 false "b" 2
      (.product (.factor (spells_number 4 false "1"))))
    (.more (rfl : grammar.name (Token.symbol ⟨12, ";", 18, false⟩) = _)
      (.expression (.product quotient))
      (.single (spells_assignment 20 false "b" 22
        (.product (.factor (spells_number 24 false "2"))))))

theorem tokens_plus (trackLines : Bool) :
    (@Scanner.tokens .ascii (@Lexicon.ofGrammar .ascii grammar) trackLines
      none (Text.encode "+")).tokens.map Prod.fst =
      [⟨5, "+", 0, false⟩] ++ [⟨0, "", 1, false⟩] :=
  tokens_of_lexemes trackLines _ [(2, "+")] (by decide +kernel)
    (by decide +kernel) (by decide +kernel)

/-! ## Evaluation of texts -/

/-- Only the last of the tokens that a scanner finds is the end of the
source. -/
theorem isEnd_eq_false_of_tokensWithin
    [CharacterData]
    {Supply : Type}
    [Stream.Source Supply]
    {lexicon : Lexicon}
    {fuel : Nat}
    {scanner : Scanner}
    {window : Stream.Window}
    {supply : Supply}
    {tokens : List Token}
    {last : Token}
    (found : (Scanner.tokensWithin lexicon fuel scanner window
      supply).tokens.map Prod.fst = tokens ++ [last]) :
    ∀ token ∈ tokens, token.isEnd = false := by
  induction fuel generalizing scanner window supply tokens with
  | zero => simp [Scanner.tokensWithin] at found
  | succ fuel inductionHypothesis =>
      unfold Scanner.tokensWithin at found
      split at found
      · simp at found
      · exact inductionHypothesis found
      · next token after rest scans =>
          cases tokens with
          | nil => simp
          | cons first others =>
              dsimp only at found
              split at found
              · simp at found
              · next notEnd =>
                  obtain ⟨rfl, isRest⟩ := List.cons.inj found
                  refine List.forall_mem_cons.mpr
                    ⟨by simpa using notEnd, inductionHypothesis isRest⟩

/-- The calculator evaluates programs. A text whose tokens are spelled by no
program is refused. If a program spells them, its statements are evaluated in
order and their results are returned, or the first failure, with the values that
the statements before it have assigned. -/
theorem evaluateText_correct
    [CharacterData]
    (options : Options) :
    ∃ calculator, create options = .ok calculator ∧
      ∀ (table : SymbolTable) (text : String) (tokens : List Token)
          (last : Token),
        (Scanner.tokens calculator.parser.compiled.lexicon options.trackLines
          none (Text.encode text)).tokens.map Prod.fst = tokens ++ [last] →
        last.isEnd = true →
        ∃ steps evaluation,
          (∀ fuel ≥ steps,
            calculator.evaluateText fuel table text = some evaluation) ∧
          ((¬ ∃ program : Program, program.Spells
              calculator.parser.compiled.grammar tokens) →
            ∃ error, evaluation.result = .error error) ∧
          ∀ program : Program,
            program.Spells calculator.parser.compiled.grammar tokens →
            evaluation.table.lookup = (program.run table.lookup).2 ∧
            match (program.run table.lookup).1 with
            | .ok results => evaluation.result = .ok results ∧
                results.length = program.length
            | .error failure => failure.OfEvaluation ∧
                ∃ error, evaluation.result = .error error ∧
                  error.cause = .handler failure := by
  obtain ⟨calculator, created, serves, -, isOptions⟩ := exists_create options
  refine ⟨calculator, created, fun table text tokens last found isEnd => ?_⟩
  have isGrammar : calculator.parser.compiled.grammar = grammar :=
    congrArg Rules.grammar serves.rules_eq
  rw [isGrammar]
  rw [← isOptions] at found
  have atEnd : last.symbol = 0 := eq_of_beq isEnd
  obtain ⟨ending, concludes⟩ :=
    serves.exists_concludes .base table tokens atEnd
  obtain ⟨steps, report, parses, shows⟩ :=
    Parser.exists_parseText_of_concludes found concludes
  refine ⟨steps, Evaluation.ofReport report, fun fuel enough => ?_, ?_, ?_⟩
  · rw [evaluateText, parses fuel enough, Option.map_some]
  · intro unspelled
    cases ending with
    | accepted value after =>
        have noEnd : ∀ token ∈ tokens, token.symbol ≠ 0 := fun token member =>
          ne_of_beq_false (isEnd_eq_false_of_tokensWithin found token member)
        exact absurd (serves.exists_spells_of_concludes concludes rfl rfl .base
          .nil noEnd atEnd) unspelled
    | failed cause after =>
        obtain ⟨⟨error, isError, -⟩, -⟩ := shows
        exact ⟨error, by rw [Evaluation.ofReport, isError]; rfl⟩
  · intro program spells
    obtain ⟨after, isAfter, concludesSo⟩ :=
      serves.concludes_of_spells spells .first table atEnd
    obtain ⟨otherSteps, otherReport, parsesSo, showsSo⟩ :=
      Parser.exists_parseText_of_concludes found concludesSo
    obtain rfl : report = otherReport := by
      have first := parses (max steps otherSteps) (Nat.le_max_left _ _)
      have second := parsesSo (max steps otherSteps) (Nat.le_max_right _ _)
      exact Option.some.inj (first.symm.trans second)
    have evaluated := program.evaluated_run table.lookup
    cases ran : (program.run table.lookup).1 with
    | ok results =>
        rw [ran] at evaluated showsSo
        obtain ⟨isResult, rfl⟩ := showsSo
        refine ⟨isAfter, ?_, evaluated⟩
        rw [Evaluation.ofReport, isResult]
        rfl
    | error failure =>
        rw [ran] at evaluated showsSo
        obtain ⟨⟨error, isError, isCause⟩, rfl⟩ := showsSo
        refine ⟨isAfter, evaluated, error, ?_, isCause⟩
        rw [Evaluation.ofReport, isError]
        rfl

/-- Two statements over two lines are evaluated, with the operators in their
order. A program stops at a division by zero, with the values assigned before.
An operator alone is refused. -/
theorem evaluateText_correct_programs :
    ∃ calculator, @create .ascii Options.standard = .ok calculator ∧
      (∃ steps evaluation,
        (∀ fuel ≥ steps, @evaluateText .ascii calculator fuel
          SymbolTable.empty "a = 1 + 2 * 3; // seven\na * -(2 - 9) / 2" =
            some evaluation) ∧
        evaluation.result = .ok [some 7, some 24] ∧
        evaluation.table.lookup "a" = some 7) ∧
      (∃ steps evaluation error,
        (∀ fuel ≥ steps, @evaluateText .ascii calculator fuel
          SymbolTable.empty "b = 1; b / (b - b); b = 2" =
            some evaluation) ∧
        evaluation.result = .error error ∧
        error.cause = .handler .divisionByZero ∧
        evaluation.table.lookup "b" = some 1) ∧
      ∃ steps evaluation error,
        (∀ fuel ≥ steps, @evaluateText .ascii calculator fuel
          SymbolTable.empty "+" = some evaluation) ∧
        evaluation.result = .error error := by
  obtain ⟨calculator, created, correct⟩ :=
    @evaluateText_correct .ascii Options.standard
  obtain ⟨_, createdSo, serves, isLexicon, -⟩ :=
    @exists_create .ascii Options.standard
  obtain rfl := Except.ok.inj (created.symm.trans createdSo)
  have isGrammar : calculator.parser.compiled.grammar = grammar :=
    congrArg Rules.grammar serves.rules_eq
  rw [isGrammar, isLexicon] at correct
  refine ⟨calculator, created, ?evaluated, ?divided, ?refused⟩
  case evaluated =>
    obtain ⟨steps, evaluation, evaluates, -, spelled⟩ :=
      correct SymbolTable.empty _ _ _ (tokens_quotient _) rfl
    obtain ⟨isTable, isResult, -⟩ := spelled _ spells_quotient
    refine ⟨steps, evaluation, evaluates, isResult, ?_⟩
    rw [isTable]
    cbv
  case divided =>
    obtain ⟨steps, evaluation, evaluates, -, spelled⟩ :=
      correct SymbolTable.empty _ _ _ (tokens_zeroDivision _) rfl
    obtain ⟨isTable, -, error, isError, isCause⟩ :=
      spelled _ spells_zeroDivision
    refine ⟨steps, evaluation, error, evaluates, isError, isCause, ?_⟩
    rw [isTable]
    cbv
  case refused =>
    obtain ⟨steps, evaluation, evaluates, refused, -⟩ :=
      correct SymbolTable.empty _ _ _ (tokens_plus _) rfl
    have unspelled : ¬ ∃ program : Program,
        program.Spells grammar [⟨5, "+", 0, false⟩] := by
      rintro ⟨program, spells⟩
      exact not_spells_single (by decide) (by decide) program spells
    obtain ⟨error, isError⟩ := refused unspelled
    exact ⟨steps, evaluation, error, evaluates, isError⟩

end Calculator
end ParserGenerator
