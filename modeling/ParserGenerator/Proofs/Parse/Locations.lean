import ParserGenerator.Proofs.Parse.Failing
import ParserGenerator.Proofs.Stream.Lines

/-!
# Where a parse fails

The place that an error tells is that of its offset in the text, however the
text came into the window: a scanner has seen the text up to the end of the last
lexeme and keeps the lines from the start of that lexeme on. Only where no
terminal matches a line feed that comes after a carriage return does an error
tell another place, the start of a line that the text does not have there.
-/

open ParserGenerator.Stream

namespace ParserGenerator

/-- No terminal is found that takes up no units. -/
def Lexicon.Proper [CharacterData] (lexicon : Lexicon) : Prop :=
  ∀ input terminal length,
    lexicon.automaton.longestMatch input true = .found terminal length →
      0 < length

theorem Lexicon.proper_ofGrammar
    [CharacterData]
    {grammar : Grammar}
    (apart : CharacterData.SurrogatesApart)
    (declared : grammar.Declared)
    (normal : ∀ terminal ∈ grammar.lexicalTerminals,
      terminal.pattern.Normal) :
    (Lexicon.ofGrammar grammar).Proper :=
  fun _ _ _ found => (Grammar.numbers_of_found apart declared normal found).1

/-! ## Scanning -/

namespace Scanner

variable {text rest : List CodeUnit} {scanner : Scanner} {position length : Nat}
  {window : Window}

/-- A scanner that has come to a position in a text knows the lines from an
earlier offset on. -/
structure Tracks (text : List CodeUnit) (scanner : Scanner) (position : Nat) :
    Prop where
  within : position ≤ text.length
  follows : ∃ lines kept, scanner.lines = some lines ∧
    lines.Follows (text.take position) kept ∧ (kept = 0 ∨ kept < position)

/-- A scanner can tell where a token starts. -/
def Places (text : List CodeUnit) (scanner : Scanner) (token : Token) : Prop :=
  token.position ≤ text.length ∧
    scanner.location token.position = some (placeOf text token.position)

/-- A scanner can tell the place it has come to in what it has seen of the
text. -/
theorem Tracks.location_eq
    (tracks : Tracks text scanner position) :
    scanner.location position =
      some (placeOf (text.take position) position) := by
  obtain ⟨lines, kept, isLines, follows, early⟩ := tracks.follows
  have seen : (text.take position).length = position :=
    List.length_take_of_le tracks.within
  rw [location, isLines, Option.bind_some,
    follows.location_eq (by omega)]

/-- A scanner that observes the next units of a text tracks its lines further
and can tell where these units start. -/
theorem Tracks.observe
    (tracks : Tracks text scanner position)
    (positive : 0 < length)
    (within : position + length ≤ text.length) :
    Tracks text
        (scanner.observe position ((text.drop position).take length))
        (position + length) ∧
      (scanner.observe position ((text.drop position).take length)).location
        position = some (placeOf text position) := by
  obtain ⟨lines, kept, isLines, follows, early⟩ := tracks.follows
  generalize isUnits : (text.drop position).take length = units
  have seen : (text.take position).length = position :=
    List.length_take_of_le tracks.within
  have stop : (text.take (position + length)).length = position + length :=
    List.length_take_of_le within
  have observed := follows.observe (by rwa [seen]) units
  rw [seen, ← isUnits, ← List.take_add, isUnits] at observed
  have discarded := observed.discardBefore position
  rw [Nat.max_eq_right (show kept ≤ position by omega)] at discarded
  have isObserved : (scanner.observe position units).lines =
      some ((lines.observe position units).discardBefore position) := by
    simp [Scanner.observe, isLines]
  refine ⟨⟨within, _, position, isObserved, discarded, .inr (by omega)⟩, ?_⟩
  rw [location, isObserved, Option.bind_some,
    discarded.location_eq (Nat.le_refl _),
    placeOf_take_of_lt text (by omega)]

section Scan

variable [CharacterData] {lexicon : Lexicon} {terminal : Nat}

/-- What is found in a window over a text takes up units of the text. -/
theorem observe_found
    (proper : lexicon.Proper)
    (views : window.Views text rest)
    (tracks : Tracks text scanner window.position)
    (found : lexicon.automaton.longestMatch window.pending window.atEnd =
      .found terminal length) :
    Tracks text
        (scanner.observe window.position (window.pending.take length))
        (window.consume length).position ∧
      (scanner.observe window.position (window.pending.take length)).location
        window.position = some (placeOf text window.position) := by
  have positive : 0 < length :=
    proper _ _ _ ((views.longestMatch_eq lexicon.automaton
      (by simp [found])).trans found)
  have available := Lexical.Automaton.length_le_of_longestMatch found
  have isFront : window.pending.take length =
      (text.drop window.position).take length := by
    rw [views.pending, List.take_append_of_le_length available]
  have within : window.position + length ≤ text.length := by
    have pending := congrArg List.length views.pending
    rw [List.length_drop, List.length_append] at pending
    omega
  rw [Window.position_consume, isFront]
  exact tracks.observe positive within

/-- A scan keeps track of the lines and can tell where its token starts. -/
theorem tracks_scan
    (proper : lexicon.Proper)
    (views : window.Views text rest)
    (tracks : Tracks text scanner window.position) :
    Tracks text (scanner.scan lexicon window).2.1
        (scanner.scan lexicon window).2.2.position ∧
      ∀ token, (scanner.scan lexicon window).1 = .token token →
        (scanner.scan lexicon window).2.1.Places text token := by
  fun_induction scan lexicon scanner window with
  | case1 scanner window empty ended =>
      have location := tracks.location_eq
      have covers : text.length ≤ window.position := by
        have nothing := views.pending
        rwa [List.isEmpty_iff.mp empty, views.ended ended, List.append_nil,
          List.drop_eq_nil_iff] at nothing
      rw [List.take_of_length_le covers] at location
      refine ⟨⟨tracks.within, tracks.follows⟩, ?_⟩
      rintro _ ⟨⟩
      exact ⟨tracks.within, location⟩
  | case2 | case3 | case4 =>
      refine ⟨tracks, fun token isToken => ?_⟩
      cases isToken
  | case5 scanner window nonempty terminal length found units position
      observed trivia positive inductionHypothesis =>
      obtain ⟨further, -⟩ := observe_found proper views tracks found
      have available := Lexical.Automaton.length_le_of_longestMatch found
      exact inductionHypothesis (views.consume available)
        ⟨further.within, further.follows⟩
  | case6 scanner window nonempty terminal length found units position
      observed trivia zero =>
      have positive : 0 < length :=
        proper _ _ _ ((views.longestMatch_eq lexicon.automaton
          (by simp [found])).trans found)
      exact absurd positive zero
  | case7 scanner window nonempty terminal length found units position
      observed significant =>
      obtain ⟨further, location⟩ := observe_found proper views tracks found
      refine ⟨⟨further.within, further.follows⟩, ?_⟩
      rintro _ ⟨⟩
      exact ⟨tracks.within, location⟩

end Scan
end Scanner

namespace Parse

variable {Supply Context Failure Value : Type}

/-! ## Runs -/

namespace Run

variable [CharacterData] [Source Supply]
  {parser : Parser Context Failure Value}
  {run next : Run Supply Context Value} {text : List CodeUnit}

/-- A run tracks the lines of the text that it reads and can tell where the
token at hand starts. -/
structure Tracks (text : List CodeUnit) (run : Run Supply Context Value) :
    Prop where
  reads : run.Reads text
  scanner : run.scanner.Tracks text run.window.position
  token : ∀ token, run.token = some token → run.scanner.Places text token

theorem Tracks.scan
    {lexicon : Lexicon}
    (proper : lexicon.Proper)
    (tracks : run.Tracks text) :
    (run.scanner.scan lexicon run.window).2.1.Tracks text
        (run.scanner.scan lexicon run.window).2.2.position ∧
      ∀ token, (run.scanner.scan lexicon run.window).1 = .token token →
        (run.scanner.scan lexicon run.window).2.1.Places text token := by
  obtain ⟨rest, views, -⟩ := tracks.reads.views
  exact Scanner.tracks_scan proper views tracks.scanner

theorem Tracks.goesOn
    (proper : parser.compiled.lexicon.Proper)
    (tracks : run.Tracks text)
    (goesOn : run.GoesOn parser next) :
    next.Tracks text := by
  have reads := tracks.reads.goesOn goesOn
  obtain ⟨further, places⟩ := tracks.scan proper
  cases goesOn with
  | @scans token _ scans supply isToken =>
      rw [scans] at further places
      refine ⟨reads, further, ?_⟩
      rw [isToken]
      rintro _ ⟨⟩
      exact places token rfl
  | @refills window count _ scans fills stillNone =>
      have samePosition := Window.position_fill window run.supply
      rw [fills] at samePosition
      rw [scans] at further
      refine ⟨reads, samePosition ▸ further, ?_⟩
      rw [stillNone]
      nofun
  | @decides token isToken scanner window supply outcome =>
      refine ⟨reads, scanner ▸ window ▸ tracks.scanner, ?_⟩
      rw [scanner]
      rcases outcome with ⟨-, kept⟩ | ⟨-, none⟩
      · rw [kept, ← isToken]
        exact tracks.token
      · rw [none]
        nofun

omit [CharacterData] in
theorem tracks_start
    {options : Options}
    {window : Window}
    {supply : Supply}
    {context : Context}
    (tracksLines : options.trackLines = true)
    (reads : (start options window supply context :
      Run Supply Context Value).Reads text)
    (atStart : window.position = 0) :
    (start options window supply context :
      Run Supply Context Value).Tracks text where
  reads := reads
  scanner := by
    show (Scanner.start options.trackLines).Tracks text window.position
    rw [atStart]
    refine ⟨Nat.zero_le _, LineCounter.start, 0, ?_, .start, .inl rfl⟩
    simp [Scanner.start, tracksLines]
  token := nofun

end Run

namespace Parser

variable [CharacterData]

/-- A parser comes to an end with a text, which is all in its window or comes
from a source piece by piece. -/
inductive Reports (parser : Parser Context Failure Value) (context : Context)
    (text : List CodeUnit) : Report Context Failure Value → Prop
  | memory
      {fuel : Nat}
      {report : Report Context Failure Value}
      (ends : parser.parseUnits fuel context text = some report) :
      Reports parser context text report
  | stream
      {Supply : Type}
      [Source Supply]
      {supply : Supply}
      {fuel : Nat}
      {report : Report Context Failure Value}
      (delivers : Delivers supply text)
      (ends : parser.parse fuel context supply = some report) :
      Reports parser context text report

/-- The place that the error at the end of a run tells, if no lexeme is
empty. -/
theorem location_of_complete
    [Source Supply]
    {parser : Parser Context Failure Value}
    {text : List CodeUnit}
    {run : Run Supply Context Value}
    {fuel : Nat}
    {report : Report Context Failure Value}
    {error : ParseError Failure}
    (proper : parser.compiled.lexicon.Proper)
    (tracks : run.Tracks text)
    (ends : run.complete parser fuel = some report)
    (failed : report.result = .error error) :
    error.position ≤ text.length ∧
      (¬(error.cause = .unrecognizedInput ∧
          SplitsReturn text error.position) →
        error.location = some (placeOf text error.position)) ∧
      (error.cause = .unrecognizedInput ∧ SplitsReturn text error.position →
        error.location =
          some ⟨(placeOf text error.position).line + 1, 1⟩) := by
  obtain ⟨last, member, finished⟩ := Run.complete_eq_some_iff.mp ends
  have lastTracks : last.Tracks text := Run.holds_of_mem_visited
    (fun _ _ => Run.Tracks.goesOn proper) tracks last member
  cases Run.fails_of_advance finished failed with
  | unrecognized _ scans isError =>
      obtain ⟨further, -⟩ := lastTracks.scan proper
      rw [scans] at further
      subst isError
      refine ⟨further.within, fun whole => ?_, fun both => ?_⟩
      · rw [further.location_eq, placeOf_take_self fun splits =>
          whole ⟨rfl, splits⟩]
      · rw [further.location_eq, placeOf_take_of_splitsReturn both.2]
  | source _ scans fills =>
      exact absurd fills (lastTracks.reads.fill_ne_error scans _)
  | @decides token cause configuration isToken outcome isError =>
      obtain ⟨within, location⟩ := lastTracks.token token isToken
      subst isError
      exact ⟨within, fun _ => location, fun both =>
        absurd both.1 (Configuration.cause_ne_unrecognizedInput outcome)⟩

/-- Every error of a parser that tracks lines tells the place of its offset in
the text, however the text came into the window, with one exception: where a
lexeme ends with a carriage return and no terminal matches at the line feed
after it, the error tells the start of the next line. -/
theorem location_of_error
    (apart : CharacterData.SurrogatesApart)
    (parser : Parser Context Failure Value)
    (goal : String)
    (resolver : Option Table.Resolver)
    (declared : parser.compiled.grammar.Declared)
    (normal : ∀ terminal ∈ parser.compiled.grammar.lexicalTerminals,
      terminal.pattern.Normal)
    (compiles : (Compiled.compile parser.compiled.grammar goal
      resolver).result = .ok parser.compiled)
    (tracksLines : parser.options.trackLines = true)
    (context : Context)
    (text : List CodeUnit)
    (report : Report Context Failure Value)
    (error : ParseError Failure)
    (reports : parser.Reports context text report)
    (failed : report.result = .error error) :
    error.position ≤ text.length ∧
      (¬(error.cause = .unrecognizedInput ∧
          SplitsReturn text error.position) →
        error.location = some (placeOf text error.position)) ∧
      (error.cause = .unrecognizedInput ∧ SplitsReturn text error.position →
        error.location =
          some ⟨(placeOf text error.position).line + 1, 1⟩) := by
  have proper : parser.compiled.lexicon.Proper := by
    obtain ⟨symbol, table, -, -, isCompiled⟩ :=
      Compiled.compile_eq_ok_iff.mp compiles
    rw [isCompiled]
    exact Lexicon.proper_ofGrammar apart declared normal
  cases reports with
  | memory ends =>
      exact location_of_complete proper
        (Run.tracks_start tracksLines (parser.reads_ofUnits context text) rfl)
        ends failed
  | stream delivers ends =>
      exact location_of_complete proper
        (Run.tracks_start tracksLines
          (parser.reads_ofCapacity context delivers) rfl)
        ends failed

omit [CharacterData] in
theorem location_of_error_twoLetter :
    ∃ report error,
      @Reports _ _ _ .ascii twoLetterParser () [13, 97, 98] report ∧
        report.result = .error error ∧
        error.cause = .unrecognizedInput ∧
        error.position = 2 ∧
        error.location = some (placeOf [13, 97, 98] 2) ∧
        placeOf [13, 97, 98] 2 = ⟨2, 2⟩ := by
  let _ : CharacterData := .ascii
  have terminals : twoLetterGrammar.lexicalTerminals =
      [⟨.text "a", false⟩, ⟨.text "\r", false⟩] := rfl
  have normal : ∀ terminal ∈ twoLetterGrammar.lexicalTerminals,
      terminal.pattern.Normal := by
    rw [terminals]
    simp [Pattern.Normal]
  have fails : (twoLetterParser.parse 20 () (InMemory.mk [13, 97, 98])).map
      Report.result =
        some (.error ⟨.unrecognizedInput, 2, some ⟨2, 2⟩, "b", ""⟩) := by
    decide +kernel
  obtain ⟨report, ends, failed⟩ := Option.map_eq_some_iff.mp fails
  have reports : twoLetterParser.Reports () [13, 97, 98] report :=
    .stream (InMemory.delivers _) ends
  have whole : ¬SplitsReturn [13, 97, 98] 2 := by decide
  obtain ⟨-, location, -⟩ := location_of_error
    CharacterData.surrogatesApart_ascii twoLetterParser "S" none
    declared_twoLetterGrammar normal compile_twoLetterGrammar rfl ()
    [13, 97, 98] report _ reports failed
  exact ⟨report, _, reports, failed, rfl, rfl,
    location fun both => whole both.2, by decide⟩

omit [CharacterData] in
/-- A carriage return is skipped and no terminal matches the line feed after it:
the error tells the start of a second line, though the line feed still belongs
to the first one. -/
theorem location_of_lineFeed_twoLetter :
    ∃ report error,
      (@Compiled.compile .ascii twoLetterGrammar "S" none).result =
          .ok twoLetterParser.compiled ∧
        twoLetterParser.options.trackLines = true ∧
        @parseText _ _ _ .ascii twoLetterParser 10 () "\r\n" = some report ∧
        report.result = .error error ∧
        error.cause = .unrecognizedInput ∧
        error.position = 1 ∧
        error.location = some ⟨2, 1⟩ ∧
        placeOf (Text.encode "\r\n") 1 = ⟨1, 2⟩ := by
  let _ : CharacterData := .ascii
  have fails : (twoLetterParser.parseText 10 () "\r\n").map Report.result =
      some (.error ⟨.unrecognizedInput, 1, some ⟨2, 1⟩, "", ""⟩) := by
    decide +kernel
  obtain ⟨report, ends, failed⟩ := Option.map_eq_some_iff.mp fails
  exact ⟨report, _, compile_twoLetterGrammar, rfl, ends, failed, rfl, rfl, rfl,
    by decide +kernel⟩

end Parser
end Parse
end ParserGenerator
