import Mathlib
import ParserGenerator.Proofs.Parse.Concluding
import ParserGenerator.Proofs.Parse.LineBreaks
import ParserGenerator.Proofs.Parse.Safety
import ParserGenerator.Proofs.Table.Interleaving
import ParserGenerator.Proofs.Tokenizing

/-!
# Parses return

A parser whose table was built without overrides and without a resolver decides
finitely often about a token, on the token and on the marker before it, and then
ends or shifts it. Since a text has finitely many tokens before its end, a parse
returns unless it shifts the end of the source over and over. Two grammars show
that the end of the source and the markers have to be taken into account.
-/

open ParserGenerator.Stream

namespace ParserGenerator

/-! ## Reductions on a token and its marker -/

namespace Table
namespace Rules

/-- Every sequence of reductions on a token and on the marker before it ends. -/
def Rests (rules : Rules) (table : Table) (token : Token)
    (stack : List SymbolId) : Prop :=
  Acc (fun after before => ∃ symbol ∈ [token.marker, token.symbol],
    rules.Reduces table symbol before after) stack

variable {rules : Rules} {table : Table} {stack : List SymbolId} {state : Nat}

/-- Where no marker is mentioned, only reductions on the token count. -/
theorem ConflictFree.rests_of_ignores
    (conflictFree : rules.ConflictFree table)
    (ignores : rules.grammar.IgnoresLineBreaks)
    (token : Token)
    (leads : rules.stateAfter stack = some state) :
    rules.Rests table token stack := by
  have terminates : rules.Terminates table token.symbol stack :=
    conflictFree.terminates_of_stateAfter leads
  refine Subrelation.accessible ?_ terminates
  rintro after before ⟨symbol, member, reduces⟩
  rcases List.mem_cons.mp member with rfl | isSymbol
  · obtain ⟨acts, -⟩ := reduces
    obtain ⟨state, -, stateActs⟩ := Option.bind_eq_some_iff.mp acts
    rw [action_marker_eq_none conflictFree.wellFormed conflictFree.built
      ignores] at stateActs
    simp at stateActs
  · exact List.mem_singleton.mp isSymbol ▸ reduces

theorem ConflictFree.rests_of_fruitful
    (conflictFree : rules.ConflictFree table)
    (fruitful : rules.Fruitful)
    (token : Token)
    (leads : rules.stateAfter stack = some state) :
    rules.Rests table token stack := by
  refine Subrelation.accessible ?_
    (conflictFree.exhausts_of_stateAfter fruitful leads)
  rintro after before ⟨symbol, -, reduces⟩
  exact ⟨symbol, reduces⟩

end Rules
end Table

/-! ## Scanning what is in memory -/

/-- A scan of what is all in the window finds a token, which is the end of the
source or takes up units, or text that no terminal matches. -/
def Lexicon.Progresses [CharacterData] (lexicon : Lexicon) : Prop :=
  ∀ (scanner : Scanner) (window : Window), window.atEnd = true →
    (∃ token after rest,
        scanner.scan lexicon window = (.token token, after, rest) ∧
        (token.isEnd = true ∨ rest.pending.length < window.pending.length)) ∨
      ∃ lexeme after rest,
        scanner.scan lexicon window = (.unrecognized lexeme, after, rest)

/-- Since no declared terminal is nullable, scanning never stands still. -/
theorem Lexicon.progresses_ofGrammar
    [CharacterData]
    {grammar : Grammar}
    (apart : CharacterData.SurrogatesApart)
    (declared : grammar.Declared)
    (normal : ∀ terminal ∈ grammar.lexicalTerminals,
      terminal.pattern.Normal) :
    (Lexicon.ofGrammar grammar).Progresses := by
  intro scanner window ended
  fun_induction Scanner.scan (Lexicon.ofGrammar grammar) scanner window with
  | case1 => exact .inl ⟨_, _, _, rfl, .inl rfl⟩
  | case2 scanner window empty open' => exact absurd ended open'
  | case3 scanner window nonempty needMore =>
      rw [ended] at needMore
      exact absurd needMore
        (Lexical.Automaton.longestMatch_atEnd_ne_needMore _ _)
  | case4 => exact .inr ⟨_, _, _, rfl⟩
  | case5 scanner window nonempty terminal length found units position
      observed trivia positive inductionHypothesis =>
      refine (inductionHypothesis ended).imp_left ?_
      rintro ⟨token, after, rest, scans, ends | shorter⟩
      · exact ⟨token, after, rest, scans, .inl ends⟩
      · refine ⟨token, after, rest, scans, .inr (shorter.trans_le ?_)⟩
        simp [Window.consume]
  | case6 scanner window nonempty terminal length found units position
      observed trivia zero =>
      rw [ended] at found
      exact absurd (Grammar.numbers_of_found apart declared normal found).1 zero
  | case7 scanner window nonempty terminal length found units position
      observed significant =>
      have available := Lexical.Automaton.length_le_of_longestMatch found
      rw [ended] at found
      obtain ⟨positive, -⟩ :=
        Grammar.numbers_of_found apart declared normal found
      refine .inl ⟨_, _, _, rfl, .inr ?_⟩
      simp only [Window.consume, List.length_drop]
      omega

namespace Parse

open Table (Rules)

variable {Supply Context Failure Value : Type}

/-! ## Decisions about one token -/

namespace Configuration

variable {rules : Rules} {table : Table}
  {bindings : Bindings Context Failure Value}
  {configuration next : Configuration Context Value} {token : Token}

/-- A reduction that succeeds replaces the body of the production. -/
theorem reduces_of_reduce
    (conflictFree : rules.ConflictFree table)
    {symbol : SymbolId}
    {production : ProductionId}
    (acts : rules.actionAfter table configuration.symbols symbol =
      some (.reduce production))
    (reduced : configuration.reduce rules table bindings production =
      .kept next) :
    next.markerShifted = configuration.markerShifted ∧
      rules.Reduces table symbol configuration.symbols next.symbols := by
  obtain ⟨head, value, after, target, -, heads, -, rfl⟩ :=
    reduce_eq_kept reduced
  obtain ⟨below, _, _, isStack, -, -⟩ :=
    conflictFree.reduction_of_actionAfter acts
  refine ⟨rfl, ?_⟩
  have isBelow := symbols_drop isStack
  rw [isStack] at acts ⊢
  unfold symbols
  rw [List.map_cons, List.reverse_cons, isBelow]
  exact .mk acts heads

/-- A decision that keeps the token shifts the marker before it or reduces. -/
theorem kept_cases
    (conflictFree : rules.ConflictFree table)
    (rooted : Rooted table configuration.frames)
    (isKept : configuration.step rules table bindings token = .kept next) :
    (configuration.markerShifted = false ∧ next.markerShifted = true) ∨
      next.markerShifted = configuration.markerShifted ∧
        ∃ symbol ∈ [token.marker, token.symbol],
          rules.Reduces table symbol configuration.symbols next.symbols := by
  rcases perform_eq_kept isKept with
    ⟨target, marker, decided, rfl⟩ | ⟨production, decided, reduced⟩
  · exact .inl ⟨(Decision.make_eq_shiftMarker decided).1, rfl⟩
  · obtain ⟨symbol, member, acts⟩ := Decision.make_eq_reduce decided
    rw [action_eq_actionAfter conflictFree.built rooted] at acts
    obtain ⟨sameMarker, reduces⟩ :=
      reduces_of_reduce conflictFree acts reduced
    exact .inr ⟨sameMarker, symbol, member, reduces⟩

/-- A token is kept finitely often. -/
def Settles (rules : Rules) (table : Table)
    (bindings : Bindings Context Failure Value) (token : Token)
    (configuration : Configuration Context Value) : Prop :=
  Acc (fun after before => before.step rules table bindings token =
    .kept after) configuration

/-- A token is kept finitely often if it is after the marker is shifted. -/
theorem settles_of_marked
    (conflictFree : rules.ConflictFree table)
    (rests : ∀ {stack state}, rules.stateAfter stack = some state →
      rules.Rests table token stack)
    (marked : ∀ next : Configuration Context Value,
      configuration.markerShifted = false → next.markerShifted = true →
        Rooted table next.frames → next.Settles rules table bindings token)
    (rooted : Rooted table configuration.frames) :
    configuration.Settles rules table bindings token := by
  -- Reductions keep the flag of the marker, so that only they are counted here.
  have ends := rests (rooted.stateAfter_symbols conflictFree.built)
  change rules.Rests table token configuration.symbols at ends
  generalize isStack : configuration.symbols = stack at ends
  induction ends generalizing configuration with
  | intro stack _ inductionHypothesis =>
      subst isStack
      refine .intro _ fun next isKept => ?_
      have safe : (configuration.step rules table bindings token).Safe table :=
        safe_step conflictFree.built rooted token
      rw [isKept] at safe
      rcases kept_cases conflictFree rooted isKept with
        ⟨unmarked, nowMarked⟩ | ⟨sameMarker, reduces⟩
      · exact marked next unmarked nowMarked safe
      · refine inductionHypothesis _ reduces ?_ safe rfl
        intro other unmarked
        exact marked other (sameMarker ▸ unmarked)

/-- Finitely many decisions are made about a token before it is shifted or the
parse ends. -/
theorem settles_of_rests
    (conflictFree : rules.ConflictFree table)
    (rests : ∀ {stack state}, rules.stateAfter stack = some state →
      rules.Rests table token stack)
    (rooted : Rooted table configuration.frames) :
    configuration.Settles rules table bindings token := by
  refine settles_of_marked conflictFree rests ?_ rooted
  intro marked _ isMarked markedRooted
  refine settles_of_marked conflictFree rests ?_ markedRooted
  intro _ unmarked
  rw [isMarked] at unmarked
  exact Bool.noConfusion unmarked

end Configuration

/-- A parser that decides finitely often about each token and makes progress in
a text. -/
structure Parser.Steady [CharacterData]
    (parser : Parser Context Failure Value) : Prop where
  /-- The table has no conflicts. -/
  conflictFree :
    parser.compiled.rules.ConflictFree parser.compiled.table
  /-- Reductions on a token and its marker end. -/
  rests : ∀ {token stack state},
    parser.compiled.rules.stateAfter stack = some state →
      parser.compiled.rules.Rests parser.compiled.table token stack
  /-- Scanning makes progress. -/
  progresses : parser.compiled.lexicon.Progresses

/-! ## Runs -/

namespace Run

section Steps

variable [CharacterData] [Source Supply]
  {parser : Parser Context Failure Value}
  {run next : Run Supply Context Value}

/-- A run comes to another one by steps. -/
def Leads (parser : Parser Context Failure Value) :
    Run Supply Context Value → Run Supply Context Value → Prop :=
  Relation.ReflTransGen fun run next => run.advance parser = .ongoing next

theorem Ends.of_leads
    {report : Report Context Failure Value}
    (ends : next.Ends parser report)
    (leads : run.Leads parser next) :
    run.Ends parser report := by
  induction leads using Relation.ReflTransGen.head_induction_on with
  | refl => exact ends
  | head ongoing _ inductionHypothesis =>
      exact inductionHypothesis.of_ongoing ongoing

/-- A run with a token at hand ends or shifts the token. -/
theorem exists_ends_or_shifted
    (steady : parser.Steady)
    {token : Token}
    (rooted : Rooted parser.compiled.table run.configuration.frames)
    (atToken : run.token = some token) :
    (∃ report, run.Ends parser report) ∨
      ∃ next : Run Supply Context Value, run.Leads parser next ∧
        Rooted parser.compiled.table next.configuration.frames ∧
        next.token = none ∧ next.reader = run.reader ∧
        next.shifts = run.shifts + 1 ∧
        parser.compiled.rules.Mentions token.symbol := by
  have conflictFree := steady.conflictFree
  have settles : run.configuration.Settles parser.compiled.rules
      parser.compiled.table parser.bindings token :=
    Configuration.settles_of_rests conflictFree steady.rests rooted
  generalize isConfiguration : run.configuration = configuration at settles
  induction settles generalizing run with
  | intro configuration _ inductionHypothesis =>
      subst isConfiguration
      have safe : (parser.outcome run.configuration token).Safe
          parser.compiled.table :=
        Configuration.safe_step conflictFree.built rooted token
      cases outcome : parser.outcome run.configuration token with
      | kept configuration =>
          rw [outcome] at safe
          obtain ⟨next, ongoing, rfl, stillAtToken, sameReader, sameShifts⟩ :=
            exists_advance_of_kept atToken outcome
          rw [← sameReader, ← sameShifts]
          refine (inductionHypothesis _ outcome safe stillAtToken rfl).imp ?_ ?_
          · rintro ⟨report, ends⟩
            exact ⟨report, ends.of_ongoing ongoing⟩
          · rintro ⟨last, leads, shifted⟩
            exact ⟨last, .head ongoing leads, shifted⟩
      | consumed configuration =>
          rw [outcome] at safe
          obtain ⟨next, ongoing, rfl, noToken, sameReader, oneMore⟩ :=
            exists_advance_of_consumed atToken outcome
          obtain ⟨target, decided, -⟩ :=
            Configuration.perform_eq_consumed outcome
          have acts := Decision.make_eq_shift decided
          rw [Configuration.action_eq_actionAfter conflictFree.built rooted]
            at acts
          exact .inr ⟨next, .single ongoing, safe, noToken, sameReader, oneMore,
            (conflictFree.shift_of_actionAfter acts).2.2⟩
      | accepted value configuration =>
          obtain ⟨report, finished, -⟩ :=
            exists_advance_of_accepted atToken outcome
          exact .inl ⟨report, .of_finished finished⟩
      | failed cause configuration =>
          obtain ⟨report, finished, -⟩ :=
            exists_advance_of_failed atToken outcome
          exact .inl ⟨report, .of_finished finished⟩

/-- A run over a text in memory that is to scan a token. -/
structure Poised (parser : Parser Context Failure Value)
    (run : Run Supply Context Value) : Prop where
  /-- No token is at hand. -/
  noToken : run.token = none
  /-- The stack follows transitions. -/
  rooted : Rooted parser.compiled.table run.configuration.frames
  /-- All of the text is in the window. -/
  ended : run.window.atEnd = true

/-- A run that is to scan a token ends or scans and shifts one. -/
theorem Poised.exists_ends_or_shifted
    (steady : parser.Steady)
    (poised : run.Poised parser) :
    (∃ report, run.Ends parser report) ∨
      ∃ next : Run Supply Context Value, run.Leads parser next ∧
        next.Poised parser ∧ next.shifts = run.shifts + 1 ∧
        (parser.compiled.rules.Mentions Grammar.endSymbol ∨
          next.window.pending.length < run.window.pending.length) := by
  rcases steady.progresses run.scanner run.window poised.ended with
    ⟨token, after, rest, scans, progress⟩ | ⟨lexeme, after, rest, scans⟩
  · obtain ⟨scanned, ongoing, atToken, same, isReader, sameShifts⟩ :=
      exists_advance_of_token poised.noToken scans
    rcases Run.exists_ends_or_shifted steady (same ▸ poised.rooted) atToken with
      ⟨report, ends⟩ |
        ⟨next, leads, rooted, noToken, sameReader, oneMore, mentioned⟩
    · exact .inl ⟨report, ends.of_ongoing ongoing⟩
    · have isWindow : next.window = rest :=
        congrArg (fun reader => reader.2.1) (sameReader.trans isReader)
      have stillEnded : rest.atEnd = true := by
        have same := Scanner.atEnd_scan parser.compiled.lexicon run.scanner
          run.window
        rwa [scans, poised.ended] at same
      refine .inr ⟨next, .head ongoing leads,
        ⟨noToken, rooted, isWindow ▸ stillEnded⟩, sameShifts ▸ oneMore, ?_⟩
      rw [isWindow]
      refine progress.imp_left fun isEnd => ?_
      exact (eq_of_beq isEnd : token.symbol = Grammar.endSymbol) ▸ mentioned
  · have finished : ∃ report, run.advance parser = .finished report := by
      simp only [advance, poised.noToken, scanToken, scans, fail, finish]
      exact ⟨_, rfl⟩
    obtain ⟨report, finished⟩ := finished
    exact .inl ⟨report, .of_finished finished⟩

/-- A run ends if the end of the source cannot be shifted. -/
theorem Poised.exists_ends
    (steady : parser.Steady)
    (unmentioned : ¬ parser.compiled.rules.Mentions Grammar.endSymbol)
    (poised : run.Poised parser) :
    ∃ report, run.Ends parser report := by
  -- Every shift leaves fewer units to scan.
  induction size : run.window.pending.length using Nat.strong_induction_on
    generalizing run with
  | _ size shorter =>
      rcases poised.exists_ends_or_shifted steady with
        ends | ⟨next, leads, nextPoised, -, mentioned | fewer⟩
      · exact ends
      · exact absurd mentioned unmentioned
      · obtain ⟨report, ends⟩ := shorter _ (size ▸ fewer) nextPoised rfl
        exact ⟨report, ends.of_leads leads⟩

/-- A run ends or shifts any number of tokens. -/
theorem Poised.exists_ends_or_shifts
    (steady : parser.Steady)
    (poised : run.Poised parser)
    (count : Nat) :
    (∃ report, run.Ends parser report) ∨
      ∃ next : Run Supply Context Value, run.Leads parser next ∧
        next.Poised parser ∧ count ≤ next.shifts := by
  induction count with
  | zero => exact .inr ⟨run, .refl, poised, Nat.zero_le _⟩
  | succ count inductionHypothesis =>
      rcases inductionHypothesis with ends | ⟨next, leads, nextPoised, enough⟩
      · exact .inl ends
      rcases nextPoised.exists_ends_or_shifted steady with
        ⟨report, ends⟩ | ⟨last, onward, lastPoised, oneMore, -⟩
      · exact .inl ⟨report, ends.of_leads leads⟩
      · exact .inr ⟨last, leads.trans onward, lastPoised, by omega⟩

end Steps
end Run

namespace Parser

/-- What makes a parser steady. -/
theorem steady_of_compile
    [CharacterData]
    {parser : Parser Context Failure Value}
    {goal : String}
    (apart : CharacterData.SurrogatesApart)
    (declared : parser.compiled.grammar.Declared)
    (normal : ∀ terminal ∈ parser.compiled.grammar.lexicalTerminals,
      terminal.pattern.Normal)
    (plain : ∀ rule ∈ parser.compiled.grammar.productions,
      rule.shiftOn = [] ∧ rule.reduceOn = [] ∧ rule.lookaheadOverrides = [])
    (compiles : (Compiled.compile parser.compiled.grammar goal none).result =
      .ok parser.compiled)
    (apt : parser.compiled.grammar.IgnoresLineBreaks ∨
      parser.compiled.rules.Fruitful) :
    parser.Steady := by
  obtain ⟨symbol, table, -, built, isCompiled⟩ :=
    Compiled.compile_eq_ok_iff.mp compiles
  have conflictFree :
      parser.compiled.rules.ConflictFree parser.compiled.table := by
    rw [isCompiled]
    exact {
      wellFormed := ⟨declared.wellFormed, Rules.goal_of_construct built⟩
      undecided := fun rule member =>
        ⟨(plain rule member).1, (plain rule member).2.1⟩
      plain := fun rule member => (plain rule member).2.2
      built := Rules.construct_of_ok built }
  refine ⟨conflictFree, fun leads => ?_, ?_⟩
  · rcases apt with ignores | fruitful
    · exact conflictFree.rests_of_ignores ignores _ leads
    · exact conflictFree.rests_of_fruitful fruitful _ leads
  · rw [isCompiled]
    exact Lexicon.progresses_ofGrammar apart declared normal

/-- Parses return. Where the grammar has no overrides and its table was built
without a resolver, and where no body mentions a marker for line breaks or every
non-terminal that the goal leads to derives a word, a parser ends for every text
after finitely many steps, whatever its handlers do. Only a grammar with the end
of the source in a body may make it shift tokens without end instead. -/
theorem returns_or_shifts_endlessly
    [CharacterData]
    (apart : CharacterData.SurrogatesApart)
    (parser : Parser Context Failure Value)
    (goal : String)
    (declared : parser.compiled.grammar.Declared)
    (normal : ∀ terminal ∈ parser.compiled.grammar.lexicalTerminals,
      terminal.pattern.Normal)
    (plain : ∀ rule ∈ parser.compiled.grammar.productions,
      rule.shiftOn = [] ∧ rule.reduceOn = [] ∧ rule.lookaheadOverrides = [])
    (compiles : (Compiled.compile parser.compiled.grammar goal none).result =
      .ok parser.compiled)
    (apt : parser.compiled.grammar.IgnoresLineBreaks ∨
      parser.compiled.rules.Fruitful)
    (context : Context)
    (text : String) :
    (∃ steps report, ∀ fuel ≥ steps,
        parser.parseText fuel context text = some report) ∨
      (∃ rule ∈ parser.compiled.grammar.productions,
          Grammar.endSymbol ∈ rule.body) ∧
        ∀ count, ∃ run,
          Run.Leads parser (Run.start parser.options
            (Window.ofUnits (Text.encode text)) (InMemory.mk []) context) run ∧
          count ≤ run.shifts := by
  have steady := steady_of_compile apart declared normal plain compiles apt
  have poised : (Run.start parser.options (Window.ofUnits (Text.encode text))
      (InMemory.mk []) context : Run InMemory Context Value).Poised parser :=
    ⟨rfl, .base, rfl⟩
  by_cases returns : ∃ report,
      (Run.start parser.options (Window.ofUnits (Text.encode text))
        (InMemory.mk []) context : Run InMemory Context Value).Ends parser
          report
  · obtain ⟨report, steps, ends⟩ := returns
    exact .inl ⟨steps, report, fun fuel enough =>
      Run.complete_mono ends enough⟩
  · refine .inr ⟨?_, fun count => ?_⟩
    · by_contra unmentioned
      exact returns (poised.exists_ends steady unmentioned)
    · rcases poised.exists_ends_or_shifts steady count with
        ends | ⟨next, leads, -, enough⟩
      · exact absurd ends returns
      · exact ⟨next, leads, enough⟩

/-- The parser of a letter without a line break before it, with the lexicon of
its grammar. -/
def unbrokenParser [CharacterData] : Parser (List String) Unit String :=
  { unbrokenLetterParser with
    compiled := { unbrokenLetterParser.compiled with
      lexicon := Lexicon.ofGrammar unbrokenLetterParser.compiled.grammar } }

theorem returns_or_shifts_endlessly_unbroken :
    ∃ steps report, ∀ fuel ≥ steps,
      @parseText _ _ _ .ascii (@unbrokenParser .ascii) fuel [] "a" =
        some report := by
  let _ : CharacterData := .ascii
  have declared : unbrokenLetterParser.compiled.grammar.Declared :=
    (Grammar.Declared.empty false).declareAll
      [.terminal "a" (.text "a") ⟨false, false⟩, .nonTerminal "S",
        .rule 4 "S:1" "$nonl a"]
      (by cbv)
  have terminals : unbrokenLetterParser.compiled.grammar.lexicalTerminals =
      [⟨.text "a", false⟩] := rfl
  have normal : ∀ terminal ∈
      unbrokenLetterParser.compiled.grammar.lexicalTerminals,
        terminal.pattern.Normal := by
    rw [terminals]
    simp [Pattern.Normal]
  have isGoal : unbrokenLetterParser.compiled.grammar.symbol? "S" =
      some 4 := by
    decide +kernel
  have built : (Table.construct unbrokenLetterParser.compiled.grammar 4
      none).result = .ok unbrokenLetterParser.compiled.table := by
    cbv
  have unmentioned : ¬ ∃ rule ∈
      unbrokenLetterParser.compiled.grammar.productions,
        Grammar.endSymbol ∈ rule.body := by
    decide
  rcases returns_or_shifts_endlessly CharacterData.surrogatesApart_ascii
    unbrokenParser "S" declared normal (by decide)
    (Compiled.compile_eq_ok_iff.mpr ⟨4, _, isGoal, built, rfl⟩)
    (.inr fun _ _ symbol _ => productive_unbroken symbol) [] "a" with
    returns | ⟨mentioned, -⟩
  · exact returns
  · exact absurd mentioned unmentioned

end Parser

/-! ## Parses that do not return -/

/-- A run does not end if something holds after its first step that lets it go
on and holds again afterwards. -/
theorem Run.complete_eq_none
    [CharacterData]
    [Source Supply]
    {parser : Parser Context Failure Value}
    {holds : Run Supply Context Value → Prop}
    (goesOn : ∀ run, holds run →
      ∃ next, run.advance parser = .ongoing next ∧ holds next)
    {run next : Run Supply Context Value}
    (first : run.advance parser = .ongoing next)
    (holdsNext : holds next)
    (fuel : Nat) :
    run.complete parser fuel = none := by
  induction fuel generalizing run next with
  | zero => rfl
  | succ fuel inductionHypothesis =>
      obtain ⟨later, ongoing, holdsLater⟩ := goesOn next holdsNext
      rw [complete, first]
      exact inductionHypothesis ongoing holdsLater

/-- The end of the source is found again and again. -/
theorem scan_of_finished
    [CharacterData]
    (lexicon : Lexicon)
    (scanner : Scanner)
    (window : Window)
    (empty : window.pending = [])
    (ended : window.atEnd = true) :
    scanner.scan lexicon window =
      (.token ⟨Grammar.endSymbol, "", window.position, scanner.lineBreak⟩,
        scanner.emit, window) := by
  rw [Scanner.scan]
  simp [empty, ended]

/-- A parser without handlers for a grammar and its table. -/
def bareParser [CharacterData] (grammar : Grammar) (table : Table) :
    Parser Unit Unit Unit where
  compiled := ⟨⟨grammar, 4⟩, table, Lexicon.ofGrammar grammar⟩
  bindings := ⟨[], []⟩
  options := .standard

/-- A grammar without overrides can be declared and compiled for the goal `S`,
and a parser without handlers does not return for the empty text. -/
def NeverReturns (grammar : Grammar) : Prop :=
  grammar.Declared ∧
    (∀ rule ∈ grammar.productions,
      rule.shiftOn = [] ∧ rule.reduceOn = [] ∧ rule.lookaheadOverrides = []) ∧
    ∃ parser : Parser Unit Unit Unit,
      (@Compiled.compile Unicode.standard grammar "S" none).result =
          .ok parser.compiled ∧
        parser.bindings = ⟨[], []⟩ ∧
        ∀ fuel, @Parser.parseText _ _ _ Unicode.standard parser fuel () "" =
          none

section NeverReturning

variable [CharacterData] {grammar : Grammar} {table : Table}

/-- The end of the source is shifted in the first two states. -/
abbrev ShiftsEnd (table : Table) : Prop :=
  ∀ state ∈ [0, 1], table.action state 1 = none ∧
    table.action state 2 = none ∧ table.action state 0 = some (.shift 1)

/-- A run that has come to the end of the source in one of the first two
states. -/
structure Run.ShiftingEnd (run : Run InMemory Unit Unit) : Prop where
  /-- Nothing is left to scan. -/
  empty : run.window.pending = []
  /-- Nothing comes into the window. -/
  ended : run.window.atEnd = true
  /-- No marker was shifted. -/
  unmarked : run.configuration.markerShifted = false
  /-- The state is one of the first two. -/
  state : run.configuration.state ∈ [0, 1]
  /-- The token at hand is the end of the source. -/
  atEnd : ∀ token, run.token = some token → token.symbol = Grammar.endSymbol

/-- The end of the source is scanned and shifted over and over. -/
theorem Run.ShiftingEnd.goesOn
    (shiftsEnd : ShiftsEnd table)
    (run : Run InMemory Unit Unit)
    (shifting : run.ShiftingEnd) :
    ∃ next, run.advance (bareParser grammar table) = .ongoing next ∧
      next.ShiftingEnd := by
  obtain ⟨empty, ended, unmarked, isState, atEnd⟩ := shifting
  cases isToken : run.token with
  | none =>
      obtain ⟨next, ongoing, atToken, same, isReader, -⟩ :=
        exists_advance_of_token isToken
          (scan_of_finished _ run.scanner run.window empty ended)
      have isWindow : next.window = run.window :=
        congrArg (fun reader => reader.2.1) isReader
      refine ⟨next, ongoing, ?_, ?_, ?_, ?_, ?_⟩
      · rwa [isWindow]
      · rwa [isWindow]
      · rwa [same]
      · rwa [same]
      · rw [atToken]
        rintro token ⟨⟩
        rfl
  | some token =>
      obtain ⟨noBreak, noMarker, shifts⟩ := shiftsEnd _ isState
      have ignored : table.action run.configuration.state token.marker =
          none := by
        unfold Token.marker
        split
        · exact noBreak
        · exact noMarker
      have isConsumed : (bareParser grammar table).outcome run.configuration
          token = .consumed ⟨⟨1, token.symbol, none⟩ ::
            run.configuration.frames, false, run.configuration.context⟩ := by
        have isEnd : token.symbol = 0 := atEnd token isToken
        simp [Parser.outcome, Configuration.step, Configuration.decision,
          Decision.make, Decision.ofMarker, Decision.ofToken, bareParser,
          unmarked, ignored, isEnd, shifts, Configuration.perform,
          Configuration.shift, Bindings.token]
      obtain ⟨next, ongoing, isConfiguration, noToken, sameReader, -⟩ :=
        exists_advance_of_consumed isToken isConsumed
      have isWindow : next.window = run.window :=
        congrArg (fun reader => reader.2.1) sameReader
      refine ⟨next, ongoing, ?_, ?_, ?_, ?_, ?_⟩
      · rwa [isWindow]
      · rwa [isWindow]
      · rw [isConfiguration]
      · rw [isConfiguration]
        simp [Configuration.state]
      · rw [noToken]
        intro token isSome
        cases isSome

/-- Where the table reduces, a parser without handlers does. -/
theorem outcome_of_reduce
    {configuration : Configuration Unit Unit}
    {token : Token}
    {production : ProductionId}
    {head : SymbolId}
    {body : List SymbolId}
    {target : Nat}
    (decided : configuration.decision table token = .reduce production)
    (isBody : Rules.body ⟨grammar, 4⟩ production = body)
    (heads : Rules.head? ⟨grammar, 4⟩ production = some head)
    (enough : body.length ≤ configuration.frames.length)
    (edge : table.goto (topState (configuration.frames.drop body.length)) head =
      some target) :
    ∃ value, (bareParser grammar table).outcome configuration token =
      .kept ⟨⟨target, head, value⟩ :: configuration.frames.drop body.length,
        configuration.markerShifted, configuration.context⟩ := by
  have short : ¬ (configuration.frames.take body.length).length <
      body.length := by
    rw [List.length_take, Nat.min_eq_left enough]
    exact Nat.lt_irrefl _
  simp only [Parser.outcome, Configuration.step, bareParser, decided,
    Configuration.perform, Configuration.reduce, isBody, short, if_false,
    Bindings.reduce, List.lookup_nil, Configuration.goto, heads,
    Configuration.state_eq, edge]
  exact ⟨_, rfl⟩

/-- A grammar of symbols `Z`, `W` and `V` that yield nothing and of a symbol `A`
that yields no word. After a `W` there may be a `V` at the end of the source or,
after the letter `b`, another `W` and a marker. -/
def pilingGrammar : Grammar :=
  ⟨false,
    #[⟨"$end", .endOfSource⟩, ⟨"$nl", .lineBreak⟩, ⟨"$nonl", .noLineBreak⟩,
      ⟨"b", .terminal (.text "b") ⟨false, false⟩⟩,
      ⟨"S", .nonTerminal⟩, ⟨"A", .nonTerminal⟩, ⟨"Z", .nonTerminal⟩,
      ⟨"W", .nonTerminal⟩, ⟨"V", .nonTerminal⟩],
    #[⟨"S:1", 4, [6], [], [], []⟩, ⟨"S:2", 4, [5], [], [], []⟩,
      ⟨"S:3", 4, [3, 6], [], [], []⟩, ⟨"S:4", 4, [3, 7, 7, 2], [], [], []⟩,
      ⟨"A:1", 5, [7, 5], [], [], []⟩, ⟨"A:2", 5, [6, 5], [], [], []⟩,
      ⟨"Z:1", 6, [7, 8], [], [], []⟩, ⟨"W:1", 7, [8], [], [], []⟩,
      ⟨"V:1", 8, [], [], [], []⟩]⟩

/-- A `V` is added at the end of the source and becomes a `W` on the marker,
after nothing and after another `W`. -/
abbrev Piles (table : Table) : Prop :=
  ∀ states ∈ [(0, 6), (5, 12)], table.action states.1 2 = none ∧
    table.action states.1 0 = some (.reduce 8) ∧
    table.goto states.1 8 = some states.2 ∧
    table.action states.2 2 = some (.reduce 7) ∧
    table.goto states.1 7 = some 5

/-- A run at the end of the source, without a line break before it, in one of
the states in which symbols pile up. -/
structure Run.Piling (run : Run InMemory Unit Unit) : Prop where
  /-- The end of the source is at hand. -/
  atEnd : ∃ token, run.token = some token ∧ token.symbol = Grammar.endSymbol ∧
    token.lineBreakBefore = false
  /-- No marker was shifted. -/
  unmarked : run.configuration.markerShifted = false
  /-- A `V` is to be added or was added. -/
  piled : ∃ states ∈ [(0, 6), (5, 12)],
    topState run.configuration.frames = states.1 ∨
      ∃ frame rest, run.configuration.frames = frame :: rest ∧
        frame.state = states.2 ∧ topState rest = states.1

/-- Symbols pile up without end. -/
theorem Run.Piling.goesOn
    (piles : Piles table)
    (run : Run InMemory Unit Unit)
    (piling : run.Piling) :
    ∃ next, run.advance (bareParser pilingGrammar table) = .ongoing next ∧
      next.Piling := by
  obtain ⟨⟨token, atToken, isEnd, noBreak⟩, unmarked, states, member, place⟩ :=
    piling
  obtain ⟨noMarker, adds, onto, becomes, back⟩ := piles states member
  have isMarker : token.marker = 2 := by
    simp [Token.marker, noBreak, Grammar.noLineBreakSymbol]
  have isSymbol : token.symbol = 0 := isEnd
  rcases place with below | ⟨frame, rest, isFrames, above, below⟩
  · have decided : run.configuration.decision table token = .reduce 8 := by
      simp [Configuration.decision, Decision.make, Decision.ofMarker,
        Decision.ofToken, unmarked, isMarker, isSymbol,
        Configuration.state_eq, below, noMarker, adds]
    have edge : table.goto (topState (run.configuration.frames.drop
        ([] : List SymbolId).length)) 8 = some states.2 := by
      simpa [below] using onto
    obtain ⟨value, isKept⟩ := outcome_of_reduce decided
      (show Rules.body ⟨pilingGrammar, 4⟩ 8 = [] from rfl) rfl
      (Nat.zero_le _) edge
    obtain ⟨next, ongoing, isConfiguration, stillAtToken, -, -⟩ :=
      exists_advance_of_kept atToken isKept
    refine ⟨next, ongoing, ⟨token, stillAtToken, isEnd, noBreak⟩, ?_, states,
      member, .inr ?_⟩
    · rwa [isConfiguration]
    · rw [isConfiguration]
      exact ⟨_, _, rfl, rfl, below⟩
  · have decided : run.configuration.decision table token = .reduce 7 := by
      simp [Configuration.decision, Decision.make, Decision.ofMarker,
        unmarked, isMarker, Configuration.state_eq, isFrames, topState, above,
        becomes]
    have edge : table.goto (topState (run.configuration.frames.drop
        ([8] : List SymbolId).length)) 7 = some 5 := by
      simpa [isFrames, below] using back
    obtain ⟨value, isKept⟩ := outcome_of_reduce decided
      (show Rules.body ⟨pilingGrammar, 4⟩ 7 = [8] from rfl) rfl
      (by simp [isFrames]) edge
    obtain ⟨next, ongoing, isConfiguration, stillAtToken, -, -⟩ :=
      exists_advance_of_kept atToken isKept
    refine ⟨next, ongoing, ⟨token, stillAtToken, isEnd, noBreak⟩, ?_, (5, 12),
      by simp, .inl ?_⟩
    · rwa [isConfiguration]
    · rw [isConfiguration]
      rfl

end NeverReturning

/-- The grammar of any number of ends of the source and then a letter. -/
def recurringEndGrammar : Grammar :=
  ⟨false,
    #[⟨"$end", .endOfSource⟩, ⟨"$nl", .lineBreak⟩, ⟨"$nonl", .noLineBreak⟩,
      ⟨"a", .terminal (.text "a") ⟨false, false⟩⟩, ⟨"S", .nonTerminal⟩],
    #[⟨"S:1", 4, [0, 4], [], [], []⟩, ⟨"S:2", 4, [3], [], [], []⟩]⟩

/-- A step that succeeds gives what holds of its result. -/
theorem exists_ok_of_any
    {Error Result : Type}
    {step : Except Error Result}
    {holds : Result → Prop}
    [DecidablePred holds]
    (succeeds : step.toOption.any (fun result => holds result) = true) :
    ∃ result, step = .ok result ∧ holds result := by
  cases step with
  | error error => simp [Except.toOption] at succeeds
  | ok result => exact ⟨result, rfl, by simpa [Except.toOption] using succeeds⟩

/-- A run over the empty text starts with the end of the source. -/
theorem exists_advance_start
    [CharacterData]
    (parser : Parser Unit Unit Unit) :
    ∃ next,
      (Run.start parser.options (Window.ofUnits (Text.encode ""))
        (InMemory.mk []) ()).advance parser = .ongoing next ∧
      next.token = some ⟨Grammar.endSymbol, "", 0, false⟩ ∧
      next.configuration = .start () ∧
      next.window = Window.ofUnits [] := by
  let start : Run InMemory Unit Unit := Run.start parser.options
    (Window.ofUnits (Text.encode "")) (InMemory.mk []) ()
  have noToken : start.token = none := rfl
  obtain ⟨next, ongoing, atToken, same, isReader, -⟩ :=
    Run.exists_advance_of_token noToken (scan_of_finished
      parser.compiled.lexicon start.scanner start.window rfl rfl)
  exact ⟨next, ongoing, atToken, same,
    congrArg (fun reader => reader.2.1) isReader⟩

/-- The end of the source is shifted over and over. -/
theorem neverReturns_recurringEndGrammar :
    NeverReturns recurringEndGrammar := by
  let _ : CharacterData := Unicode.standard
  have declared : recurringEndGrammar.Declared :=
    (Grammar.Declared.empty false).declareAll
      [.terminal "a" (.text "a") ⟨false, false⟩, .nonTerminal "S",
        .rule 4 "S:1" "$end S", .rule 4 "S:2" "a"]
      (by cbv)
  have isGoal : recurringEndGrammar.symbol? "S" = some 4 := by
    decide +kernel
  obtain ⟨table, built, shiftsEnd⟩ : ∃ table,
      (Table.construct recurringEndGrammar 4 none).result = .ok table ∧
        ShiftsEnd table :=
    exists_ok_of_any (by decide +kernel)
  refine ⟨declared, by decide, bareParser recurringEndGrammar table,
    Compiled.compile_eq_ok_iff.mpr ⟨4, table, isGoal, built, rfl⟩, rfl, ?_⟩
  obtain ⟨next, first, atToken, same, isWindow⟩ :=
    exists_advance_start (bareParser recurringEndGrammar table)
  refine Run.complete_eq_none (Run.ShiftingEnd.goesOn shiftsEnd) first
    ⟨?_, ?_, ?_, ?_, ?_⟩
  · rw [isWindow]
    rfl
  · rw [isWindow]
    rfl
  · rw [same]
    rfl
  · rw [same]
    exact List.mem_cons_self
  · rw [atToken]
    rintro token ⟨⟩
    rfl

/-- A `W` is added over and over at the end of the source. -/
theorem neverReturns_pilingGrammar : NeverReturns pilingGrammar := by
  let _ : CharacterData := Unicode.standard
  have declared : pilingGrammar.Declared :=
    (Grammar.Declared.empty false).declareAll
      [.terminal "b" (.text "b") ⟨false, false⟩, .nonTerminal "S",
        .nonTerminal "A", .nonTerminal "Z", .nonTerminal "W", .nonTerminal "V",
        .rule 4 "S:1" "Z", .rule 4 "S:2" "A", .rule 4 "S:3" "b Z",
        .rule 4 "S:4" "b W W $nonl", .rule 5 "A:1" "W A", .rule 5 "A:2" "Z A",
        .rule 6 "Z:1" "W V", .rule 7 "W:1" "V", .rule 8 "V:1" ""]
      (by cbv)
  have isGoal : pilingGrammar.symbol? "S" = some 4 := by
    decide +kernel
  obtain ⟨table, built, piles⟩ : ∃ table,
      (Table.construct pilingGrammar 4 none).result = .ok table ∧
        Piles table :=
    exists_ok_of_any (by decide +kernel)
  refine ⟨declared, by decide, bareParser pilingGrammar table,
    Compiled.compile_eq_ok_iff.mpr ⟨4, table, isGoal, built, rfl⟩, rfl, ?_⟩
  obtain ⟨next, first, atToken, same, -⟩ :=
    exists_advance_start (bareParser pilingGrammar table)
  refine Run.complete_eq_none (Run.Piling.goesOn piles) first
    ⟨⟨_, atToken, rfl, rfl⟩, ?_, (0, 6), List.mem_cons_self, .inl ?_⟩
  · rw [same]
    rfl
  · rw [same]
    rfl

/-- Parses need not return: where a body mentions the end of the source they may
shift it without end, though no marker is mentioned, and where a body mentions a
marker they may reduce without end, though the end of the source is not. -/
theorem parses_need_not_return :
    (NeverReturns recurringEndGrammar ∧
        recurringEndGrammar.IgnoresLineBreaks) ∧
      NeverReturns pilingGrammar ∧
        ∀ rule ∈ pilingGrammar.productions, Grammar.endSymbol ∉ rule.body := by
  refine ⟨⟨neverReturns_recurringEndGrammar, ?_⟩, neverReturns_pilingGrammar,
    by decide⟩
  unfold Grammar.IgnoresLineBreaks
  decide

end Parse
end ParserGenerator
