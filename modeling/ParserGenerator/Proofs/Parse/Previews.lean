import ParserGenerator.Proofs.Parse.Failing

/-!
# What an error shows of the input

An error over text that no terminal matches shows the front part of the text up
to the end of the line, as far as it is in the window. Where all of the text is
in the window this is the whole preview. Where the text comes piece by piece it
may be less, since the window is not refilled when what it holds rules every
terminal out.
-/

open ParserGenerator.Stream

namespace ParserGenerator

/-! ## Previews -/

namespace Scanner

/-- The units that an error shows of units that no terminal matches. -/
def previewUnits (units : List CodeUnit) : List CodeUnit :=
  (units.take previewLength).takeWhile fun unit => !isLineBreak unit

theorem length_previewUnits_le (units : List CodeUnit) :
    (previewUnits units).length ≤ units.length :=
  (List.takeWhile_sublist _).length_le.trans (List.length_take_le' _ _)

theorem preview_take (units : List CodeUnit) (held : Nat) :
    preview (units.take held) =
      Text.decode ((previewUnits units).take held) := by
  rw [preview, previewUnits, List.take_takeWhile, List.take_take,
    List.take_take, Nat.min_comm]

variable [CharacterData] {lexicon : Lexicon} {scanner after : Scanner}
  {window last : Window} {lexeme : String}

/-- A scan stops at text that no terminal matches and shows what the window
holds of it. -/
theorem scan_eq_unrecognized
    (scans : scanner.scan lexicon window =
      (.unrecognized lexeme, after, last)) :
    last.pending ≠ [] ∧
      lexicon.automaton.longestMatch last.pending last.atEnd = .noMatch ∧
      lexeme = preview last.pending := by
  fun_induction scan lexicon scanner window with
  | case4 scanner window nonempty noMatch =>
      obtain ⟨isLexeme, same⟩ := Prod.mk.inj scans
      obtain ⟨-, rfl⟩ := Prod.mk.inj same
      exact ⟨by simpa using nonempty, noMatch,
        (Scan.unrecognized.inj isLexeme).symm⟩
  | case5 scanner window nonempty terminal length found units position
      observed trivia positive inductionHypothesis =>
      exact inductionHypothesis scans
  | case1 | case2 | case3 | case6 | case7 => simp at scans

end Scanner

open Scanner (previewUnits)

namespace Parse

variable {Supply Context Failure Value : Type}

/-- An error over text that no terminal matches shows what the window holds of
its preview. The window holds at least a unit, and what it holds is enough to
rule every terminal out. -/
structure ParseError.Shows [CharacterData] (lexicon : Lexicon)
    (rest : List CodeUnit) (held : Nat) (error : ParseError Failure) :
    Prop where
  lexeme : error.lexeme = Text.decode ((previewUnits rest).take held)
  positive : 0 < held
  within : held ≤ rest.length
  noMatch : ∃ ended, (ended = true → held = rest.length) ∧
    lexicon.automaton.longestMatch (rest.take held) ended = .noMatch

namespace Run

variable [CharacterData] [Source Supply]
  {parser : Parser Context Failure Value}
  {run next : Run Supply Context Value} {text : List CodeUnit}
  {report : Report Context Failure Value} {error : ParseError Failure}

theorem atEnd_of_goesOn
    (ended : run.window.atEnd = true)
    (goesOn : run.GoesOn parser next) :
    next.window.atEnd = true := by
  have sameEnd := Scanner.atEnd_scan parser.compiled.lexicon run.scanner
    run.window
  cases goesOn with
  | scans _ scans =>
      rw [scans] at sameEnd
      exact sameEnd.trans ended
  | refills _ scans fills =>
      rw [scans] at sameEnd
      have stillEnded :=
        Window.atEnd_fill (sameEnd.trans ended) run.supply
      rwa [fills] at stillEnded
  | decides _ _ window => rwa [window]

/-- What a run that stops at text that no terminal matches shows of it, which is
all there is to show if all of the text is in the window. -/
theorem Reads.exists_shows
    (reads : run.Reads text)
    (finished : run.advance parser = .finished report)
    (failed : report.result = .error error)
    (unrecognized : error.cause = .unrecognizedInput) :
    ∃ held,
      error.Shows parser.compiled.lexicon (text.drop error.position) held ∧
      (run.window.atEnd = true →
        held = (text.drop error.position).length) := by
  cases fails_of_advance finished failed with
  | @unrecognized lexeme scanner window _ scans isError =>
      obtain ⟨nonempty, noMatch, rfl⟩ := Scanner.scan_eq_unrecognized scans
      obtain ⟨⟨rest, views, -⟩, -⟩ := reads.scan parser.compiled.lexicon
      have sameEnd := Scanner.atEnd_scan parser.compiled.lexicon run.scanner
        run.window
      rw [scans] at views sameEnd
      subst isError
      have pending : text.drop window.position = window.pending ++ rest :=
        views.pending
      have holds : (text.drop window.position).take window.pending.length =
          window.pending := by
        rw [pending, List.take_left]
      have covers : window.atEnd = true →
          window.pending.length = (text.drop window.position).length := by
        intro ended
        rw [pending, views.ended ended, List.append_nil]
      refine ⟨window.pending.length, ⟨?_, ?_, ?_, window.atEnd, covers, ?_⟩,
        fun ended => covers (sameEnd.trans ended)⟩
      · show Scanner.preview window.pending = _
        rw [← Scanner.preview_take, holds]
      · exact List.length_pos_of_ne_nil nonempty
      · show window.pending.length ≤ (text.drop window.position).length
        rw [pending, List.length_append]
        exact Nat.le_add_right _ _
      · show parser.compiled.lexicon.automaton.longestMatch
          ((text.drop window.position).take window.pending.length) _ = _
        rw [holds, noMatch]
  | source _ _ _ cause => simp [cause] at unrecognized
  | decides _ outcome isError =>
      subst isError
      exact absurd unrecognized
        (Configuration.cause_ne_unrecognizedInput outcome)

/-- The same for the end of a whole run. -/
theorem Reads.exists_shows_of_complete
    {fuel : Nat}
    (reads : run.Reads text)
    (ends : run.complete parser fuel = some report)
    (failed : report.result = .error error)
    (unrecognized : error.cause = .unrecognizedInput) :
    ∃ held,
      error.Shows parser.compiled.lexicon (text.drop error.position) held ∧
      (run.window.atEnd = true →
        held = (text.drop error.position).length) := by
  obtain ⟨last, member, finished⟩ := complete_eq_some_iff.mp ends
  have lastReads : last.Reads text :=
    holds_of_mem_visited (fun _ _ => Reads.goesOn) reads last member
  obtain ⟨held, shows, covers⟩ :=
    lastReads.exists_shows finished failed unrecognized
  exact ⟨held, shows, fun ended => covers <|
    holds_of_mem_visited
      (fun _ _ => atEnd_of_goesOn) ended last member⟩

end Run

/-- A report that agrees with that of a failure is one of a failure. -/
theorem Report.Agrees.exists_error
    {report whole : Report Context Failure Value}
    {wholeError : ParseError Failure}
    (agrees : report.Agrees whole)
    (failed : whole.result = .error wholeError) :
    ∃ error, report.result = .error error ∧ error.Agrees wholeError := by
  have same := agrees.result
  rw [failed] at same
  cases isResult : report.result with
  | ok value => simp [isResult, ResultsAgree] at same
  | error error =>
      rw [isResult] at same
      exact ⟨error, rfl, same⟩

namespace Parser

/-- Where the parse of a whole text fails over text that no terminal matches,
the parse of a stream does so at the same offset. Of the preview that the first
of the errors shows the other one shows as much as the window holds, which is at
least one unit. -/
theorem lexeme_of_unrecognized
    [CharacterData]
    [Source Supply]
    (parser : Parser Context Failure Value)
    (context : Context)
    (units : List CodeUnit)
    (supply : Supply)
    (fuel : Nat)
    (whole : Report Context Failure Value)
    (wholeError : ParseError Failure)
    (delivers : Delivers supply units)
    (ends : parser.parseUnits fuel context units = some whole)
    (failed : whole.result = .error wholeError)
    (unrecognized : wholeError.cause = .unrecognizedInput) :
    wholeError.lexeme =
        Text.decode (previewUnits (units.drop wholeError.position)) ∧
      (∃ limit report, parser.parse limit context supply = some report) ∧
      ∀ limit report, parser.parse limit context supply = some report →
        ∃ error held, report.result = .error error ∧
          error.cause = .unrecognizedInput ∧
          error.position = wholeError.position ∧
          error.Shows parser.compiled.lexicon
            (units.drop wholeError.position) held ∧
          ((previewUnits (units.drop wholeError.position)).length ≤ held →
            error.lexeme = wholeError.lexeme) := by
  have mirrors := parser.mirrors_start context delivers
  have wholeLexeme : wholeError.lexeme =
      Text.decode (previewUnits (units.drop wholeError.position)) := by
    obtain ⟨held, shows, covers⟩ :=
      (parser.reads_ofUnits context units).exists_shows_of_complete ends failed
        unrecognized
    rw [shows.lexeme, covers rfl,
      List.take_of_length_le (Scanner.length_previewUnits_le _)]
  refine ⟨wholeLexeme, ?_, fun limit report parsed => ?_⟩
  · obtain ⟨report, parsed, -⟩ :=
      mirrors.complete_of_memory ends (Nat.le_refl _)
    exact ⟨_, report, parsed⟩
  · obtain ⟨other, otherEnds, agrees⟩ := mirrors.complete parsed
    obtain rfl : other = whole := Option.some.inj <|
      (Run.complete_mono otherEnds (Nat.le_max_left limit fuel)).symm.trans
        (Run.complete_mono ends (Nat.le_max_right limit fuel))
    obtain ⟨error, isError, same⟩ := agrees.exists_error failed
    have sameCause := same.cause.trans unrecognized
    obtain ⟨held, shows, -⟩ :=
      (parser.reads_ofCapacity context delivers).exists_shows_of_complete parsed
        isError sameCause
    rw [same.position] at shows
    refine ⟨error, held, isError, sameCause, same.position, shows,
      fun enough => ?_⟩
    rw [shows.lexeme, List.take_of_length_le enough, wholeLexeme]

theorem lexeme_of_unrecognized_twoLetter :
    Delivers (InMemory.mk [120, 121]) [120, 121] ∧
      ∃ report whole error wholeError held,
        @parse _ _ _ _ .ascii _ twoLetterParser 10 () (InMemory.mk [120, 121]) =
            some report ∧
          @parseUnits _ _ _ .ascii twoLetterParser 10 () [120, 121] =
            some whole ∧
          report.result = .error error ∧
          whole.result = .error wholeError ∧
          wholeError.cause = .unrecognizedInput ∧
          @ParseError.Shows _ .ascii twoLetterParser.compiled.lexicon
            [120, 121] held error ∧
          error.lexeme = "x" ∧
          wholeError.lexeme = Text.decode (previewUnits [120, 121]) := by
  let _ : CharacterData := .ascii
  have streamFails : (twoLetterParser.parse 10 () (InMemory.mk [120, 121])).map
      Report.result =
        some (.error ⟨.unrecognizedInput, 0, some ⟨1, 1⟩, "x", ""⟩) := by
    decide +kernel
  have wholeFails : (twoLetterParser.parseUnits 10 () [120, 121]).map
      Report.result =
        some (.error ⟨.unrecognizedInput, 0, some ⟨1, 1⟩, "xy", ""⟩) := by
    decide +kernel
  obtain ⟨report, parsed, failed⟩ := Option.map_eq_some_iff.mp streamFails
  obtain ⟨whole, wholeParsed, wholeFailed⟩ :=
    Option.map_eq_some_iff.mp wholeFails
  obtain ⟨wholeLexeme, -, agree⟩ := lexeme_of_unrecognized twoLetterParser ()
    [120, 121] (InMemory.mk [120, 121]) 10 whole _ (InMemory.delivers _)
    wholeParsed wholeFailed rfl
  obtain ⟨error, held, isError, -, -, shows, -⟩ := agree 10 report parsed
  obtain rfl := Except.error.inj (failed.symm.trans isError)
  exact ⟨InMemory.delivers _, report, whole, _, _, held, parsed, wholeParsed,
    failed, wholeFailed, rfl, shows, rfl, wholeLexeme⟩

/-- The first of three letters is shown if the letters come one at a time, and
all of them if they are in the window. -/
theorem lexeme_of_chunks_twoLetter :
    Delivers (InMemory.ofString "xyz") (Text.encode "xyz") ∧
      ∃ report whole error wholeError,
        (@Compiled.compile .ascii twoLetterGrammar "S" none).result =
            .ok twoLetterParser.compiled ∧
          @parse _ _ _ _ .ascii _ twoLetterParser 10 ()
            (InMemory.ofString "xyz") = some report ∧
          @parseText _ _ _ .ascii twoLetterParser 10 () "xyz" = some whole ∧
          report.result = .error error ∧
          whole.result = .error wholeError ∧
          error.cause = .unrecognizedInput ∧
          wholeError.cause = .unrecognizedInput ∧
          error.lexeme = "x" ∧
          wholeError.lexeme = "xyz" := by
  let _ : CharacterData := .ascii
  have streamFails : (twoLetterParser.parse 10 () (InMemory.ofString "xyz")).map
      Report.result =
        some (.error ⟨.unrecognizedInput, 0, some ⟨1, 1⟩, "x", ""⟩) := by
    decide +kernel
  have wholeFails : (twoLetterParser.parseText 10 () "xyz").map Report.result =
      some (.error ⟨.unrecognizedInput, 0, some ⟨1, 1⟩, "xyz", ""⟩) := by
    decide +kernel
  obtain ⟨report, parsed, failed⟩ := Option.map_eq_some_iff.mp streamFails
  obtain ⟨whole, wholeParsed, wholeFailed⟩ :=
    Option.map_eq_some_iff.mp wholeFails
  exact ⟨InMemory.delivers _, report, whole, _, _, compile_twoLetterGrammar,
    parsed, wholeParsed, failed, wholeFailed, rfl, rfl, rfl, rfl⟩

end Parser
end Parse
end ParserGenerator
