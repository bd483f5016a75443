import ParserGenerator.Proofs.Parse.Deciding
import ParserGenerator.Proofs.Parse.Streaming

/-!
# Conclusions from tokens

How a parse ends can be told from its configuration and the tokens to come. The
scanner and the window matter only in that they hand out these tokens.
-/

open ParserGenerator.Stream

namespace ParserGenerator
namespace Parse

variable {Supply Context Failure Value : Type}

/-- A grammar is compiled to its table and its lexicon, if it has a table. -/
theorem Compiled.compile_eq_ok_iff
    [CharacterData]
    {grammar : Grammar}
    {goal : String}
    {resolver : Option Table.Resolver}
    {compiled : Compiled} :
    (compile grammar goal resolver).result = .ok compiled ↔
      ∃ symbol table, grammar.symbol? goal = some symbol ∧
        (Table.construct grammar symbol resolver).result = .ok table ∧
        compiled = ⟨⟨grammar, symbol⟩, table, Lexicon.ofGrammar grammar⟩ := by
  unfold compile
  cases isGoal : grammar.symbol? goal with
  | none => simp
  | some symbol =>
      cases built : (Table.construct grammar symbol resolver).result with
      | error error => simp [built]
      | ok table => simp [built, eq_comm]

/-- How a parse ends. -/
inductive Ending (Context Failure Value : Type)
  /-- The goal was recognised. -/
  | accepted (value : Option Value) (context : Context)
  /-- The parse failed. -/
  | failed (cause : Cause Failure) (context : Context)

/-- What a report says about the end of a parse. -/
def Report.Shows (report : Report Context Failure Value) :
    Ending Context Failure Value → Prop
  | .accepted value context =>
      report.result = .ok value ∧ report.context = context
  | .failed cause context =>
      (∃ error, report.result = .error error ∧ error.cause = cause) ∧
        report.context = context

/-- A stack with its context and the tokens to come. -/
abbrev Situation (Context Value : Type) :=
  Configuration Context Value × List Token

namespace Parser

/-- The outcome of the decision about a token. -/
def outcome (parser : Parser Context Failure Value)
    (configuration : Configuration Context Value) (token : Token) :
    Outcome Context Failure Value :=
  configuration.step parser.compiled.rules parser.compiled.table
    parser.bindings token

/-- The decisions about the tokens to come lead to an end. -/
inductive Concludes (parser : Parser Context Failure Value) :
    Situation Context Value → Ending Context Failure Value → Prop
  | kept
      {configuration next : Configuration Context Value}
      {token : Token}
      {rest : List Token}
      {ending : Ending Context Failure Value}
      (isKept : parser.outcome configuration token = .kept next)
      (concludes : Concludes parser (next, token :: rest) ending) :
      Concludes parser (configuration, token :: rest) ending
  | consumed
      {configuration next : Configuration Context Value}
      {token : Token}
      {rest : List Token}
      {ending : Ending Context Failure Value}
      (isConsumed : parser.outcome configuration token = .consumed next)
      (concludes : Concludes parser (next, rest) ending) :
      Concludes parser (configuration, token :: rest) ending
  | accepted
      {configuration next : Configuration Context Value}
      {token : Token}
      {rest : List Token}
      {value : Option Value}
      (isAccepted : parser.outcome configuration token =
        .accepted value next) :
      Concludes parser (configuration, token :: rest)
        (.accepted value next.context)
  | failed
      {configuration next : Configuration Context Value}
      {token : Token}
      {rest : List Token}
      {cause : Cause Failure}
      (isFailed : parser.outcome configuration token = .failed cause next) :
      Concludes parser (configuration, token :: rest)
        (.failed cause next.context)

end Parser

/-- The tokens that a scanner finds in memory are handed out. -/
theorem tokenizes_of_tokensWithin
    [CharacterData]
    {lexicon : Lexicon}
    {fuel : Nat}
    {scanner : Scanner}
    {window : Window}
    {supply : InMemory}
    {tokens : List Token}
    (found : (Scanner.tokensWithin lexicon fuel scanner window
      supply).tokens.map Prod.fst = tokens) :
    Tokenizes lexicon (scanner, window, supply) tokens := by
  induction fuel generalizing scanner window supply tokens with
  | zero =>
      subst found
      exact .done
  | succ fuel inductionHypothesis =>
      unfold Scanner.tokensWithin at found
      split at found
      · subst found
        exact .done
      · next after rest scans =>
          exact .refill scans rfl (inductionHypothesis found)
      · next token after rest scans =>
          dsimp only at found
          split at found
          · subst found
            exact .token scans .done
          · subst found
            exact .token scans (inductionHypothesis rfl)

namespace Run

variable [CharacterData] [Source Supply]
  {parser : Parser Context Failure Value} {run : Run Supply Context Value}

/-- A run is in a situation: it has the first token at hand or is to scan it,
and the others are handed out after it. -/
def IsIn (parser : Parser Context Failure Value)
    (run : Run Supply Context Value)
    (situation : Situation Context Value) : Prop :=
  run.configuration = situation.1 ∧
    ((run.token = none ∧
        Tokenizes parser.compiled.lexicon run.reader situation.2) ∨
      ∃ token rest, situation.2 = token :: rest ∧ run.token = some token ∧
        Tokenizes parser.compiled.lexicon run.reader rest)

/-- A run is to decide about the first token, if not now then soon. -/
theorem IsIn.exists_atToken
    {configuration : Configuration Context Value}
    {token : Token}
    {rest : List Token}
    (isIn : run.IsIn parser (configuration, token :: rest)) :
    ∃ next : Run Supply Context Value,
      (∀ report, next.Ends parser report → run.Ends parser report) ∧
      next.token = some token ∧ next.configuration = configuration ∧
      Tokenizes parser.compiled.lexicon next.reader rest := by
  obtain ⟨isConfiguration, ⟨noToken, tokenizes⟩ |
    ⟨first, others, isTokens, atToken, tokenizes⟩⟩ := isIn
  · obtain ⟨next, ends, atToken, same, others⟩ :=
      exists_scanned tokenizes noToken
    exact ⟨next, ends, atToken, same.trans isConfiguration, others⟩
  · obtain ⟨rfl, rfl⟩ := List.cons.inj isTokens
    exact ⟨run, fun _ => id, atToken, isConfiguration, tokenizes⟩

section Advancing

variable {configuration : Configuration Context Value} {token : Token}

theorem exists_advance_of_kept
    (atToken : run.token = some token)
    (isKept : parser.outcome run.configuration token =
      .kept configuration) :
    ∃ next, run.advance parser = .ongoing next ∧
      next.configuration = configuration ∧ next.token = some token ∧
      next.reader = run.reader ∧ next.shifts = run.shifts := by
  unfold Parser.outcome Configuration.step at isKept
  simp only [advance, atToken, actOn, isKept]
  exact ⟨_, rfl, rfl, atToken, rfl, rfl⟩

theorem exists_advance_of_consumed
    (atToken : run.token = some token)
    (isConsumed : parser.outcome run.configuration token =
      .consumed configuration) :
    ∃ next, run.advance parser = .ongoing next ∧
      next.configuration = configuration ∧ next.token = none ∧
      next.reader = run.reader ∧ next.shifts = run.shifts + 1 := by
  unfold Parser.outcome Configuration.step at isConsumed
  simp only [advance, atToken, actOn, isConsumed]
  exact ⟨_, rfl, rfl, rfl, rfl, rfl⟩

theorem exists_advance_of_accepted
    {value : Option Value}
    (atToken : run.token = some token)
    (isAccepted : parser.outcome run.configuration token =
      .accepted value configuration) :
    ∃ report, run.advance parser = .finished report ∧
      report.Shows (.accepted value configuration.context) := by
  unfold Parser.outcome Configuration.step at isAccepted
  simp only [advance, atToken, actOn, isAccepted, finish]
  exact ⟨_, rfl, rfl, rfl⟩

theorem exists_advance_of_failed
    {cause : Cause Failure}
    (atToken : run.token = some token)
    (isFailed : parser.outcome run.configuration token =
      .failed cause configuration) :
    ∃ report, run.advance parser = .finished report ∧
      report.Shows (.failed cause configuration.context) := by
  unfold Parser.outcome Configuration.step at isFailed
  simp only [advance, atToken, actOn, isFailed, fail, finish]
  exact ⟨_, rfl, ⟨_, rfl, rfl⟩, rfl⟩

end Advancing

/-- A run ends as its situation tells. -/
theorem IsIn.exists_report
    {situation : Situation Context Value}
    {ending : Ending Context Failure Value}
    (isIn : run.IsIn parser situation)
    (concludes : parser.Concludes situation ending) :
    ∃ report, run.Ends parser report ∧ report.Shows ending := by
  induction concludes generalizing run with
  | kept isKept _ inductionHypothesis =>
      obtain ⟨next, ends, atToken, rfl, tokenizes⟩ := isIn.exists_atToken
      obtain ⟨later, ongoing, isConfiguration, stillAtToken, sameReader, -⟩ :=
        exists_advance_of_kept atToken isKept
      obtain ⟨report, laterEnds, shows⟩ := inductionHypothesis
        ⟨isConfiguration, .inr ⟨_, _, rfl, stillAtToken,
          sameReader ▸ tokenizes⟩⟩
      exact ⟨report, ends report (laterEnds.of_ongoing ongoing), shows⟩
  | consumed isConsumed _ inductionHypothesis =>
      obtain ⟨next, ends, atToken, rfl, tokenizes⟩ := isIn.exists_atToken
      obtain ⟨later, ongoing, isConfiguration, noToken, sameReader, -⟩ :=
        exists_advance_of_consumed atToken isConsumed
      obtain ⟨report, laterEnds, shows⟩ := inductionHypothesis
        ⟨isConfiguration, .inl ⟨noToken, sameReader ▸ tokenizes⟩⟩
      exact ⟨report, ends report (laterEnds.of_ongoing ongoing), shows⟩
  | accepted isAccepted =>
      obtain ⟨next, ends, atToken, rfl, -⟩ := isIn.exists_atToken
      obtain ⟨report, finished, shows⟩ :=
        exists_advance_of_accepted atToken isAccepted
      exact ⟨report, ends report (.of_finished finished), shows⟩
  | failed isFailed =>
      obtain ⟨next, ends, atToken, rfl, -⟩ := isIn.exists_atToken
      obtain ⟨report, finished, shows⟩ :=
        exists_advance_of_failed atToken isFailed
      exact ⟨report, ends report (.of_finished finished), shows⟩

end Run

/-- A text whose tokens lead to an end is parsed to that end, however many more
steps are allowed. -/
theorem Parser.exists_parseText_of_concludes
    [CharacterData]
    {parser : Parser Context Failure Value}
    {context : Context}
    {text : String}
    {tokens : List Token}
    {ending : Ending Context Failure Value}
    (found : (Scanner.tokens parser.compiled.lexicon parser.options.trackLines
      none (Text.encode text)).tokens.map Prod.fst = tokens)
    (concludes : parser.Concludes (.start context, tokens) ending) :
    ∃ steps report,
      (∀ fuel ≥ steps, parser.parseText fuel context text = some report) ∧
        report.Shows ending := by
  have isIn : (Run.start parser.options (Window.ofUnits (Text.encode text))
      (InMemory.mk []) context : Run InMemory Context Value).IsIn parser
        (.start context, tokens) :=
    ⟨rfl, .inl ⟨rfl, tokenizes_of_tokensWithin found⟩⟩
  obtain ⟨report, ⟨steps, ends⟩, shows⟩ := isIn.exists_report concludes
  exact ⟨steps, report, fun fuel enough => Run.complete_mono ends enough,
    shows⟩

end Parse
end ParserGenerator
