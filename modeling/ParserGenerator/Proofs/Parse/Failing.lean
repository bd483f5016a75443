import ParserGenerator.Proofs.Parse.Concluding
import ParserGenerator.Proofs.Parse.Soundness
import ParserGenerator.Proofs.Tokenizing

/-!
# Parses that fail

What a step of a run can do: it scans a token, refills the window, or decides
about the token at hand. A run fails where no terminal matches, where the source
fails, or where a decision fails. What every step keeps holds of the last run of
a parse, whose step ends it.
-/

open ParserGenerator.Stream

namespace ParserGenerator
namespace Parse

open Table (Rules)

variable {Supply Context Failure Value : Type}

namespace Configuration

variable {rules : Rules} {table : Table}
  {bindings : Bindings Context Failure Value}
  {configuration next : Configuration Context Value} {token : Token}
  {decision : Decision} {cause : Cause Failure}

/-- A reduction fails by its handler or for want of symbols or of a
transition. -/
theorem reduce_eq_failed
    {production : ProductionId}
    (reduced : configuration.reduce rules table bindings production =
      .failed cause next) :
    (∃ failure, cause = .handler failure) ∨ cause = .stackUnderflow ∨
      ∃ head, cause = .noGoto head := by
  unfold reduce goto at reduced
  dsimp only at reduced
  split at reduced
  · exact .inr (.inl (Outcome.failed.inj reduced).1.symm)
  · split at reduced
    · exact .inl ⟨_, (Outcome.failed.inj reduced).1.symm⟩
    · split at reduced
      · exact .inr (.inr ⟨_, (Outcome.failed.inj reduced).1.symm⟩)
      · split at reduced
        · exact .inr (.inr ⟨_, (Outcome.failed.inj reduced).1.symm⟩)
        · simp at reduced

/-- A decision fails if it rejects the token, which leaves the stack as it is,
or for a reason that has nothing to do with the input. -/
theorem perform_eq_failed
    (performed : configuration.perform rules table bindings token decision =
      .failed cause next) :
    (decision = .reject ∧
        cause = .unexpectedToken (token.description rules.grammar) ∧
        next = configuration) ∨
      (∃ failure, cause = .handler failure) ∨ cause = .stackUnderflow ∨
        ∃ head, cause = .noGoto head := by
  cases decision with
  | shiftMarker target marker => simp [perform] at performed
  | shift target =>
      have shifted : configuration.shift bindings target token =
          .failed cause next := performed
      unfold shift at shifted
      split at shifted
      · simp at shifted
      · exact .inr (.inl ⟨_, (Outcome.failed.inj shifted).1.symm⟩)
  | reduce production => exact .inr (reduce_eq_failed performed)
  | accept => simp [perform] at performed
  | reject =>
      obtain ⟨isCause, isNext⟩ := Outcome.failed.inj performed
      exact .inl ⟨rfl, isCause.symm, isNext.symm⟩

/-- No decision fails over text that no terminal matches. -/
theorem cause_ne_unrecognizedInput
    (performed : configuration.perform rules table bindings token decision =
      .failed cause next) :
    cause ≠ .unrecognizedInput := by
  rcases perform_eq_failed performed with
    ⟨-, rfl, -⟩ | ⟨failure, rfl⟩ | rfl | ⟨head, rfl⟩
  all_goals nofun

end Configuration

namespace Run

variable [CharacterData] [Source Supply]
  {parser : Parser Context Failure Value}
  {run next : Run Supply Context Value}
  {report : Report Context Failure Value}

/-! ## Steps -/

/-- What a step that goes on does. -/
inductive GoesOn (parser : Parser Context Failure Value)
    (run next : Run Supply Context Value) : Prop
  /-- It scans a token. -/
  | scans
      {token : Token}
      (noToken : run.token = none)
      (scans : run.scanner.scan parser.compiled.lexicon run.window =
        (.token token, next.scanner, next.window))
      (supply : next.supply = run.supply)
      (atToken : next.token = some token)
      (configuration : next.configuration = run.configuration)
      (events : next.events = run.events ∨
        next.events = .scanned token :: run.events)
  /-- It refills the window. -/
  | refills
      {window : Window}
      {count : Nat}
      (noToken : run.token = none)
      (scans : run.scanner.scan parser.compiled.lexicon run.window =
        (.needInput, next.scanner, window))
      (fills : window.fill run.supply =
        (.ok count, next.window, next.supply))
      (stillNone : next.token = none)
      (configuration : next.configuration = run.configuration)
      (events : next.events = run.events ∨
        next.events = .grown next.window.capacity :: run.events)
  /-- It decides about the token at hand. -/
  | decides
      {token : Token}
      (atToken : run.token = some token)
      (scanner : next.scanner = run.scanner)
      (window : next.window = run.window)
      (supply : next.supply = run.supply)
      (outcome :
        run.outcome parser token = .kept next.configuration ∧
            next.token = some token ∨
          run.outcome parser token = .consumed next.configuration ∧
            next.token = none)
      (events : next.events =
        .decided (run.configuration.decision parser.compiled.table token) ::
          .considered run.configuration.frames token :: run.events)

/-- What a step that fails does. -/
inductive Fails (parser : Parser Context Failure Value)
    (run : Run Supply Context Value) (error : ParseError Failure)
    (events : List (Event Value)) : Prop
  /-- It scans text that no terminal matches. -/
  | unrecognized
      {lexeme : String}
      {scanner : Scanner}
      {window : Window}
      (noToken : run.token = none)
      (scans : run.scanner.scan parser.compiled.lexicon run.window =
        (.unrecognized lexeme, scanner, window))
      (isError : error = ⟨.unrecognizedInput, window.position,
        scanner.location window.position, lexeme, ""⟩)
      (isEvents : events = run.events.reverse)
  /-- It asks a source that fails. -/
  | source
      {scanner : Scanner}
      {window : Window}
      {failure : SourceError}
      (noToken : run.token = none)
      (scans : run.scanner.scan parser.compiled.lexicon run.window =
        (.needInput, scanner, window))
      (fills : (window.fill run.supply).1 = .error failure)
      (cause : error.cause = .source failure)
      (stack : error.stack =
        run.configuration.stack parser.compiled.rules.grammar)
      (isEvents : events = run.events.reverse ∨
        ∃ capacity, events = run.events.reverse ++ [.grown capacity])
  /-- It makes a decision that fails. -/
  | decides
      {token : Token}
      {cause : Cause Failure}
      {configuration : Configuration Context Value}
      (atToken : run.token = some token)
      (outcome : run.outcome parser token = .failed cause configuration)
      (isError : error = ⟨cause, token.position,
        run.scanner.location token.position, token.text,
        configuration.stack parser.compiled.rules.grammar⟩)
      (isEvents : events = run.events.reverse ++
        [.considered run.configuration.frames token,
          .decided
            (run.configuration.decision parser.compiled.table token)])

theorem goesOn_of_advance
    (ongoing : run.advance parser = .ongoing next) :
    run.GoesOn parser next := by
  unfold advance at ongoing
  split at ongoing
  · next noToken =>
      unfold scanToken at ongoing
      generalize scans : run.scanner.scan parser.compiled.lexicon run.window =
        scan at ongoing
      obtain ⟨answer, scanner, window⟩ := scan
      cases answer with
      | needInput =>
          unfold refill at ongoing
          dsimp only at ongoing
          generalize fills : window.fill run.supply = fill at ongoing
          obtain ⟨result, filled, supply⟩ := fill
          cases result with
          | error failure => simp [fail, finish] at ongoing
          | ok count =>
              obtain rfl := Progress.ongoing.inj ongoing
              split
              · exact .refills noToken scans fills noToken rfl (.inr rfl)
              · exact .refills noToken scans fills noToken rfl (.inl rfl)
      | unrecognized lexeme => simp [fail, finish] at ongoing
      | token token =>
          obtain rfl := Progress.ongoing.inj ongoing
          split
          · exact .scans noToken scans rfl rfl rfl (.inl rfl)
          · exact .scans noToken scans rfl rfl rfl (.inr rfl)
  · next token atToken =>
      have decided := outcome_of_ongoing ongoing
      unfold actOn at ongoing
      dsimp only at ongoing
      split at ongoing
      · obtain rfl := Progress.ongoing.inj ongoing
        exact .decides atToken rfl rfl rfl (atToken ▸ decided) rfl
      · obtain rfl := Progress.ongoing.inj ongoing
        exact .decides atToken rfl rfl rfl (atToken ▸ decided) rfl
      · simp [finish] at ongoing
      · simp [fail, finish] at ongoing

theorem fails_of_advance
    {error : ParseError Failure}
    (finished : run.advance parser = .finished report)
    (failed : report.result = .error error) :
    run.Fails parser error report.events := by
  unfold advance at finished
  split at finished
  · next noToken =>
      unfold scanToken at finished
      generalize scans : run.scanner.scan parser.compiled.lexicon run.window =
        scan at finished
      obtain ⟨answer, scanner, window⟩ := scan
      cases answer with
      | needInput =>
          unfold refill at finished
          dsimp only at finished
          generalize fills : window.fill run.supply = fill at finished
          obtain ⟨result, filled, supply⟩ := fill
          cases result with
          | ok count => simp at finished
          | error failure =>
              obtain rfl := Progress.finished.inj finished
              obtain rfl := Except.error.inj failed
              refine .source noToken scans (congrArg Prod.fst fills) rfl rfl ?_
              dsimp only
              split
              · exact .inr ⟨_, List.reverse_cons⟩
              · exact .inl rfl
      | unrecognized lexeme =>
          obtain rfl := Progress.finished.inj finished
          exact .unrecognized noToken scans (Except.error.inj failed).symm rfl
      | token token => simp at finished
  · next token atToken =>
      unfold actOn at finished
      dsimp only at finished
      split at finished
      · simp at finished
      · simp at finished
      · obtain rfl := Progress.finished.inj finished
        simp at failed
      · next cause configuration isFailed =>
          obtain rfl := Progress.finished.inj finished
          refine .decides atToken isFailed (Except.error.inj failed).symm ?_
          simp [note]

/-! ## Runs -/

variable {fuel : Nat}

/-- A parse ends with the step of one of its runs. -/
theorem complete_eq_some_iff :
    run.complete parser fuel = some report ↔
      ∃ last ∈ run.visited parser fuel, last.advance parser =
        .finished report := by
  induction fuel generalizing run with
  | zero => simp [complete, visited]
  | succ fuel inductionHypothesis =>
      unfold complete visited
      cases advances : run.advance parser with
      | ongoing next => simp [advances, inductionHypothesis]
      | finished other => simp [advances]

/-- What holds of the first run and is kept by every step that goes on holds of
every run. -/
theorem holds_of_mem_visited
    {holds : Run Supply Context Value → Prop}
    (keeps : ∀ run next, holds run → run.GoesOn parser next → holds next)
    (start : holds run) :
    ∀ later ∈ run.visited parser fuel, holds later := by
  induction fuel generalizing run with
  | zero => simp [visited]
  | succ fuel inductionHypothesis =>
      unfold visited
      refine List.forall_mem_cons.mpr ⟨start, ?_⟩
      split
      · next next ongoing =>
          exact inductionHypothesis
            (keeps run next start (goesOn_of_advance ongoing))
      · exact fun later impossible => absurd impossible List.not_mem_nil

/-! ## Reading a text -/

/-- A run reads a text: its window shows the text from the place it has come to
on, and its source delivers what is not in the window yet. -/
structure Reads (text : List CodeUnit) (run : Run Supply Context Value) :
    Prop where
  views : ∃ rest, run.window.Views text rest ∧ Delivers run.supply rest
  sound : run.window.Sound

variable {text : List CodeUnit}

theorem Reads.scan
    (lexicon : Lexicon)
    (reads : run.Reads text) :
    (∃ rest, (run.scanner.scan lexicon run.window).2.2.Views text rest ∧
        Delivers run.supply rest) ∧
      (run.scanner.scan lexicon run.window).2.2.Sound := by
  obtain ⟨⟨rest, views, delivers⟩, sound⟩ := reads
  exact ⟨⟨rest, Scanner.views_scan lexicon run.scanner views, delivers⟩,
    Scanner.sound_scan lexicon run.scanner sound⟩

theorem Reads.goesOn
    (reads : run.Reads text)
    (goesOn : run.GoesOn parser next) :
    next.Reads text := by
  obtain ⟨⟨rest, views, delivers⟩, sound⟩ :=
    reads.scan parser.compiled.lexicon
  cases goesOn with
  | scans _ scans supply =>
      rw [scans] at views sound
      exact ⟨⟨rest, views, supply ▸ delivers⟩, sound⟩
  | refills _ scans fills =>
      rw [scans] at views sound
      obtain ⟨piece, later, remaining, filled, rfl, last, filledSound,
        delivered⟩ := Window.fill_of_delivers sound delivers
      rw [filled] at fills
      obtain ⟨isWindow, isSupply⟩ := Prod.mk.inj (Prod.mk.inj fills).2
      exact ⟨⟨later, isWindow ▸ views.accept last, isSupply ▸ delivered⟩,
        isWindow ▸ filledSound⟩
  | decides _ _ window supply =>
      exact ⟨window ▸ supply ▸ reads.views, window ▸ reads.sound⟩

/-- The source of a text does not fail. -/
theorem Reads.fill_ne_error
    (reads : run.Reads text)
    {answer : Scan}
    {scanner : Scanner}
    {window : Window}
    (scans : run.scanner.scan parser.compiled.lexicon run.window =
      (answer, scanner, window))
    (failure : SourceError) :
    (window.fill run.supply).1 ≠ .error failure := by
  obtain ⟨⟨rest, -, delivers⟩, sound⟩ := reads.scan parser.compiled.lexicon
  rw [scans] at sound
  obtain ⟨_, _, _, filled, -⟩ := Window.fill_of_delivers sound delivers
  rw [filled]
  nofun

omit [CharacterData] in
theorem reads_start
    {window : Window}
    {supply : Supply}
    {rest : List CodeUnit}
    (options : Options)
    (context : Context)
    (shows : window.Shows (Window.ofUnits text) rest)
    (sound : window.Sound)
    (delivers : Delivers supply rest) :
    (Run.start options window supply context :
      Run Supply Context Value).Reads text where
  views := ⟨rest, Window.views_of_shows shows, delivers⟩
  sound := sound

end Run

namespace Parser

/-- A parse of units in memory reads them. -/
theorem reads_ofUnits
    (parser : Parser Context Failure Value)
    (context : Context)
    (units : List CodeUnit) :
    (Run.start parser.options (Window.ofUnits units) (InMemory.mk []) context :
      Run InMemory Context Value).Reads units :=
  Run.reads_start _ _ (Window.shows_ofUnits units) (Window.sound_ofUnits units)
    (InMemory.delivers [])

/-- A parse of a stream reads what its source delivers. -/
theorem reads_ofCapacity
    [Source Supply]
    {supply : Supply}
    {units : List CodeUnit}
    (parser : Parser Context Failure Value)
    (context : Context)
    (delivers : Delivers supply units) :
    (Run.start parser.options (Window.ofCapacity parser.options.capacity) supply
      context : Run Supply Context Value).Reads units :=
  Run.reads_start _ _ (Window.shows_ofCapacity _ units)
    (Window.sound_ofCapacity _) delivers

end Parser

/-! ## A parser of two letters -/

/-- A grammar of two letters, in which carriage returns are skipped. -/
def twoLetterGrammar : Grammar :=
  ⟨false,
    #[⟨"$end", .endOfSource⟩, ⟨"$nl", .lineBreak⟩, ⟨"$nonl", .noLineBreak⟩,
      ⟨"a", .terminal (.text "a") ⟨false, false⟩⟩,
      ⟨"return", .terminal (.text "\r") ⟨false, true⟩⟩, ⟨"S", .nonTerminal⟩],
    #[⟨"S:1", 5, [3, 3], [], [], []⟩]⟩

/-- A parser of two letters that starts with the least window. -/
def twoLetterParser : Parser Unit Unit Unit where
  compiled :=
    { rules := ⟨twoLetterGrammar, 5⟩
      table := ⟨#[⟨[(⟨1, 0⟩, [0])], [(3, 1), (5, 2)], [(3, .shift 1)], none⟩,
        ⟨[(⟨0, 1⟩, [0])], [(3, 3)], [(3, .shift 3)], some 3⟩,
        ⟨[(⟨1, 1⟩, [0])], [], [(0, .accept)], some 5⟩,
        ⟨[(⟨0, 2⟩, [0])], [], [(0, .reduce 0)], some 3⟩], 5, 1⟩
      lexicon :=
        { automaton := ⟨#[
            ⟨[⟨⟨13, 13⟩, ⟨[], some 1⟩⟩, ⟨⟨97, 97⟩, ⟨[], some 2⟩⟩], .nowhere,
              false, none, none⟩,
            ⟨[], .nowhere, true, some 1, none⟩,
            ⟨[], .nowhere, true, some 0, none⟩], 2, 7⟩
          symbols := #[3, 4]
          trivia := #[false, true] } }
  bindings := ⟨[], []⟩
  options := ⟨1, true⟩

theorem declared_twoLetterGrammar : twoLetterGrammar.Declared :=
  (Grammar.Declared.empty false).declareAll
    [.terminal "a" (.text "a") ⟨false, false⟩,
      .terminal "return" (.text "\r") ⟨false, true⟩, .nonTerminal "S",
      .rule 5 "S:1" "a a"]
    (by cbv)

theorem compile_twoLetterGrammar :
    (@Compiled.compile .ascii twoLetterGrammar "S" none).result =
      .ok twoLetterParser.compiled := by
  have isGoal : twoLetterGrammar.symbol? "S" = some 5 := by
    decide +kernel
  have built : (Table.construct twoLetterGrammar 5 none).result =
      .ok twoLetterParser.compiled.table := by
    cbv
  have lexicon : @Lexicon.ofGrammar .ascii twoLetterGrammar =
      twoLetterParser.compiled.lexicon := by
    cbv
  exact (@Compiled.compile_eq_ok_iff .ascii _ _ _ _).mpr
    ⟨5, _, isGoal, built, lexicon ▸ rfl⟩

end Parse
end ParserGenerator
