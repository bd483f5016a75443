import ParserGenerator.Parse.Run
import ParserGenerator.Proofs.Scanning
import ParserGenerator.Unicode.Standard

/-!
# Streaming

A parse of a stream through a window ends as the parse of the whole text does,
whatever the capacity of the window and however the source cuts the text into
pieces. The two runs go side by side: they decide about the same tokens in the
same configurations, and only the run over the stream stops to refill its
window.
-/

open ParserGenerator.Stream

namespace ParserGenerator
namespace Parse

/-- Two errors that tell the same, whatever lexeme they show. -/
structure ParseError.Agrees {Failure : Type}
    (left right : ParseError Failure) : Prop where
  cause : left.cause = right.cause
  position : left.position = right.position
  location : left.location = right.location
  stack : left.stack = right.stack

/-- Two results with the same value, or with errors that tell the same. -/
def ResultsAgree {Failure Value : Type} :
    Except (ParseError Failure) (Option Value) →
      Except (ParseError Failure) (Option Value) → Prop
  | .ok left, .ok right => left = right
  | .error left, .error right => left.Agrees right
  | _, _ => False

/-- Two parses with the same outcome and the same counts of tokens, skipped
lexemes, shifts and reductions. -/
structure Report.Agrees {Context Failure Value : Type}
    (left right : Report Context Failure Value) : Prop where
  result : ResultsAgree left.result right.result
  context : left.context = right.context
  tokens : left.statistics.tokens = right.statistics.tokens
  trivia : left.statistics.trivia = right.statistics.trivia
  shifts : left.statistics.shifts = right.statistics.shifts
  reductions : left.statistics.reductions = right.statistics.reductions

namespace Run

variable {Supply Context Failure Value : Type}

/-- More steps do not change how a run ends. -/
theorem complete_mono
    [CharacterData]
    [Source Supply]
    {parser : Parser Context Failure Value}
    {fuel more : Nat}
    {run : Run Supply Context Value}
    {report : Report Context Failure Value}
    (ends : run.complete parser fuel = some report)
    (enough : fuel ≤ more) :
    run.complete parser more = some report := by
  induction fuel generalizing more run with
  | zero => simp [complete] at ends
  | succ fuel inductionHypothesis =>
      obtain ⟨less, rfl⟩ : ∃ less, more = less + 1 := ⟨more - 1, by omega⟩
      unfold complete at ends ⊢
      split
      · next next advances =>
          rw [advances] at ends
          exact inductionHypothesis ends (by omega)
      · next last advances =>
          rw [advances] at ends
          exact ends

/-- A run over a stream beside a run over the whole text. Before a token is
scanned, the run over the stream may already have skipped some trivia. -/
structure Mirrors (lexicon : Lexicon) [CharacterData] [Source Supply]
    (stream : Run Supply Context Value)
    (memory : Run InMemory Context Value)
    (rest : List CodeUnit) : Prop where
  token : memory.token = stream.token
  configuration : memory.configuration = stream.configuration
  tokens : memory.tokens = stream.tokens
  shifts : memory.shifts = stream.shifts
  reductions : memory.reductions = stream.reductions
  sound : stream.window.Sound
  memorySound : memory.window.Sound
  delivers : Delivers stream.supply rest
  memorySupply : memory.supply = ⟨[]⟩
  ahead : ∃ whole, stream.window.Shows whole rest ∧
    (stream.token = none →
      memory.scanner.scan lexicon memory.window =
        stream.scanner.scan lexicon whole) ∧
    (stream.token ≠ none →
      memory.scanner = stream.scanner ∧ memory.window = whole)

/-- The number of reads that a window can still make. -/
def readsLeft (window : Window) (rest : List CodeUnit) : Nat :=
  if window.atEnd then 0 else rest.length + 1

/-- Each refill leaves fewer reads. -/
theorem readsLeft_accept_lt
    {before window : Window}
    {piece later : List CodeUnit}
    (open' : window.atEnd = false)
    (sameEnd : window.atEnd = before.atEnd) :
    readsLeft (window.prepare.accept piece) later <
      readsLeft before (piece ++ later) := by
  rw [readsLeft, readsLeft, ← sameEnd, open']
  cases piece with
  | nil => simp [Window.accept]
  | cons unit piece =>
      have stillOpen :
          (window.prepare.accept (unit :: piece)).atEnd = false := by
        simpa [Window.accept] using open'
      rw [stillOpen]
      simp only [Bool.false_eq_true, if_false, List.length_append,
        List.length_cons]
      omega

variable [CharacterData] [Source Supply]

/-- What one step of a run over a stream means for the run beside it. -/
inductive StepsBeside (parser : Parser Context Failure Value)
    (stream : Run Supply Context Value)
    (memory : Run InMemory Context Value)
    (rest : List CodeUnit) : Prop
  /-- Both runs make the same step. -/
  | together
      {next : Run Supply Context Value}
      {memoryNext : Run InMemory Context Value}
      (advances : stream.advance parser = .ongoing next)
      (memoryAdvances : memory.advance parser = .ongoing memoryNext)
      (mirrors : Mirrors parser.compiled.lexicon next memoryNext rest)
      (sameEnd : next.window.atEnd = stream.window.atEnd)
  /-- Both runs end. -/
  | ends
      {report memoryReport : Report Context Failure Value}
      (advances : stream.advance parser = .finished report)
      (memoryAdvances : memory.advance parser = .finished memoryReport)
      (agrees : report.Agrees memoryReport)
  /-- Only the window of the stream is refilled. -/
  | refills
      {next : Run Supply Context Value}
      {later : List CodeUnit}
      (advances : stream.advance parser = .ongoing next)
      (mirrors : Mirrors parser.compiled.lexicon next memory later)
      (fewer : readsLeft next.window later < readsLeft stream.window rest)
  /-- Neither run ever ends. -/
  | never
      (stream_none : ∀ fuel, stream.complete parser fuel = none)
      (memory_none : ∀ fuel, memory.complete parser fuel = none)

omit [CharacterData] in
/-- A refill from a source that delivers appends the next piece, or notes the
end if there is none. -/
theorem refill_of_delivers
    (parser : Parser Context Failure Value)
    (run : Run Supply Context Value)
    {rest : List CodeUnit}
    (sound : run.window.Sound)
    (delivers : Delivers run.supply rest) :
    ∃ piece later supply events,
      (run.refill parser.compiled : Progress Supply Context Failure Value) =
          .ongoing { run with
            window := run.window.prepare.accept piece, supply, events } ∧
        rest = piece ++ later ∧
        (piece = [] → rest = []) ∧
        (run.window.prepare.accept piece).Sound ∧
        Delivers supply later := by
  obtain ⟨piece, later, supply, fills, split, last, nextSound, laterDelivers⟩ :=
    Window.fill_of_delivers sound delivers
  by_cases grows : run.window.capacity <
      (run.window.prepare.accept piece).capacity
  · exact ⟨piece, later, supply, _, by simp [refill, fills, grows, note]; rfl,
      split, last, nextSound, laterDelivers⟩
  · exact ⟨piece, later, supply, _, by simp [refill, fills, grows]; rfl,
      split, last, nextSound, laterDelivers⟩

theorem advance_of_unscanned
    (parser : Parser Context Failure Value)
    {run : Run Supply Context Value}
    (unscanned : run.token = none) :
    run.advance parser = run.scanToken parser.compiled := by
  simp [advance, unscanned]

/-- A run that stalls never ends. -/
theorem complete_eq_none_of_stalls
    (parser : Parser Context Failure Value)
    (fuel : Nat)
    {run : Run Supply Context Value}
    {scanner : Scanner}
    {window : Window}
    {rest : List CodeUnit}
    (unscanned : run.token = none)
    (scans : run.scanner.scan parser.compiled.lexicon run.window =
      (.needInput, scanner, window))
    (stalls : Scanner.Stalls parser.compiled.lexicon window)
    (sound : window.Sound)
    (delivers : Delivers run.supply rest)
    (ended : window.atEnd = true → rest = []) :
    run.complete parser fuel = none := by
  induction fuel generalizing run scanner window rest with
  | zero => rfl
  | succ fuel inductionHypothesis =>
      obtain ⟨piece, later, supply, events, refills, split, last, nextSound,
          nextDelivers⟩ :=
        refill_of_delivers parser { run with scanner, window } sound delivers
      have advances := advance_of_unscanned parser unscanned
      unfold scanToken at advances
      rw [scans] at advances
      rw [complete, advances.trans refills]
      subst split
      have nextStalls := stalls.accept fun atEnd =>
        (List.append_eq_nil_iff.mp (ended atEnd)).1
      obtain ⟨after, nextScans⟩ := Scanner.scan_of_stalls nextStalls scanner
      exact inductionHypothesis unscanned nextScans nextStalls nextSound
        nextDelivers (Window.eq_nil_of_atEnd_accept (by simpa using ended) last)

/-- Both runs decide alike about a token. -/
theorem Mirrors.actOn
    {parser : Parser Context Failure Value}
    {stream : Run Supply Context Value}
    {memory : Run InMemory Context Value}
    {rest : List CodeUnit}
    {token : Token}
    (mirrors : Mirrors parser.compiled.lexicon stream memory rest)
    (scanned : stream.token = some token) :
    StepsBeside parser stream memory rest := by
  obtain ⟨whole, shows, -, present⟩ := mirrors.ahead
  obtain ⟨sameScanner, sameWindow⟩ := present (by simp [scanned])
  have memoryScanned := mirrors.token.trans scanned
  have advances : stream.advance parser = stream.actOn parser token := by
    simp [advance, scanned]
  have memoryAdvances : memory.advance parser = memory.actOn parser token := by
    simp [advance, memoryScanned]
  unfold Run.actOn at advances memoryAdvances
  dsimp only at advances memoryAdvances
  rw [mirrors.configuration] at memoryAdvances
  generalize outcome : stream.configuration.perform parser.compiled.rules
    parser.compiled.table parser.bindings token
    (stream.configuration.decision parser.compiled.table token) = result
    at advances memoryAdvances
  cases result with
  | kept configuration =>
      refine .together advances memoryAdvances ?_ rfl
      exact ⟨mirrors.token, rfl, mirrors.tokens, mirrors.shifts,
        by simp [mirrors.reductions], mirrors.sound, mirrors.memorySound,
        mirrors.delivers, mirrors.memorySupply, whole, shows,
        by simp [note, scanned], by simp [note, sameScanner, sameWindow]⟩
  | consumed configuration =>
      refine .together advances memoryAdvances ?_ rfl
      exact ⟨rfl, rfl, mirrors.tokens, by simp [mirrors.shifts],
        mirrors.reductions, mirrors.sound, mirrors.memorySound,
        mirrors.delivers, mirrors.memorySupply, whole, shows,
        by simp [note, sameScanner, sameWindow], by simp⟩
  | accepted value configuration =>
      refine .ends advances memoryAdvances ?_
      exact ⟨rfl, rfl, mirrors.tokens.symm, by simp [statistics, note, sameScanner],
        mirrors.shifts.symm, mirrors.reductions.symm⟩
  | failed cause configuration =>
      refine .ends advances memoryAdvances ?_
      exact ⟨⟨rfl, rfl, by simp [note, sameScanner], rfl⟩, rfl,
        mirrors.tokens.symm, by simp [statistics, note, sameScanner],
        mirrors.shifts.symm, mirrors.reductions.symm⟩

/-- Both runs scan the same token, or only the stream has to be refilled. -/
theorem Mirrors.scanToken
    {parser : Parser Context Failure Value}
    {stream : Run Supply Context Value}
    {memory : Run InMemory Context Value}
    {rest : List CodeUnit}
    (mirrors : Mirrors parser.compiled.lexicon stream memory rest)
    (unscanned : stream.token = none) :
    StepsBeside parser stream memory rest := by
  obtain ⟨whole, shows, sameScan, -⟩ := mirrors.ahead
  have memoryUnscanned := mirrors.token.trans unscanned
  have advances := advance_of_unscanned parser unscanned
  have memoryAdvances := advance_of_unscanned parser memoryUnscanned
  have foretells := Scanner.scan_foretells parser.compiled.lexicon
    stream.scanner shows
  have sound := Scanner.sound_scan parser.compiled.lexicon stream.scanner
    mirrors.sound
  have memorySound := Scanner.sound_scan parser.compiled.lexicon memory.scanner
    mirrors.memorySound
  have sameEnd := Scanner.atEnd_scan parser.compiled.lexicon stream.scanner
    stream.window
  rw [← sameScan unscanned] at foretells
  unfold Run.scanToken at advances memoryAdvances
  generalize scans : stream.scanner.scan parser.compiled.lexicon stream.window =
    scan at advances foretells sound sameEnd
  generalize memoryScans : memory.scanner.scan parser.compiled.lexicon
    memory.window = memoryScan at memoryAdvances foretells memorySound
  cases foretells with
  | @token token scanner window whole nextShows =>
      refine .together advances memoryAdvances ?_ ?_
      · cases token.isEnd <;>
          exact ⟨rfl, mirrors.configuration, congrArg (· + 1) mirrors.tokens,
            mirrors.shifts, mirrors.reductions, sound, memorySound,
            mirrors.delivers, mirrors.memorySupply, whole, nextShows,
            nofun, fun _ => ⟨rfl, rfl⟩⟩
      · cases token.isEnd <;> exact sameEnd
  | unrecognized lexeme wholeLexeme scanner nextShows =>
      refine .ends advances memoryAdvances ?_
      exact ⟨⟨rfl, nextShows.position.symm, by rw [nextShows.position], rfl⟩,
        congrArg Configuration.context mirrors.configuration.symm,
        mirrors.tokens.symm, rfl, mirrors.shifts.symm, mirrors.reductions.symm⟩
  | @needInput scanner window whole nextShows open' =>
      obtain ⟨piece, later, supply, events, refills, split, last, nextSound,
          nextDelivers⟩ :=
        refill_of_delivers parser { stream with scanner, window } sound
          mirrors.delivers
      subst split
      refine .refills (advances.trans refills)
        ⟨mirrors.token, mirrors.configuration, mirrors.tokens, mirrors.shifts,
          mirrors.reductions, nextSound, mirrors.memorySound, nextDelivers,
          mirrors.memorySupply, whole, nextShows.accept last,
          fun _ => memoryScans, fun scanned => absurd unscanned scanned⟩
        (readsLeft_accept_lt open' sameEnd)
  | @stalls scanner window whole nextShows stalls =>
      refine .never (fun fuel => ?_) (fun fuel => ?_)
      · exact complete_eq_none_of_stalls parser fuel unscanned scans stalls
          sound mirrors.delivers nextShows.ended
      · exact complete_eq_none_of_stalls parser fuel memoryUnscanned memoryScans
          (stalls.shows nextShows) memorySound
          (mirrors.memorySupply ▸ InMemory.delivers []) fun _ => rfl

theorem Mirrors.advance
    {parser : Parser Context Failure Value}
    {stream : Run Supply Context Value}
    {memory : Run InMemory Context Value}
    {rest : List CodeUnit}
    (mirrors : Mirrors parser.compiled.lexicon stream memory rest) :
    StepsBeside parser stream memory rest := by
  cases scanned : stream.token with
  | none => exact mirrors.scanToken scanned
  | some token => exact mirrors.actOn scanned

/-- If the run over the stream ends, so does the run over the whole text, in
no more steps. -/
theorem Mirrors.complete
    {parser : Parser Context Failure Value}
    {fuel : Nat}
    {stream : Run Supply Context Value}
    {memory : Run InMemory Context Value}
    {rest : List CodeUnit}
    {report : Report Context Failure Value}
    (mirrors : Mirrors parser.compiled.lexicon stream memory rest)
    (ends : stream.complete parser fuel = some report) :
    ∃ whole, memory.complete parser fuel = some whole ∧ report.Agrees whole := by
  induction fuel generalizing stream memory rest with
  | zero => simp [Run.complete] at ends
  | succ fuel inductionHypothesis =>
      cases mirrors.advance with
      | together advances memoryAdvances nextMirrors _ =>
          rw [Run.complete, advances] at ends
          rw [Run.complete, memoryAdvances]
          exact inductionHypothesis nextMirrors ends
      | ends advances memoryAdvances agrees =>
          rw [Run.complete, advances] at ends
          rw [Run.complete, memoryAdvances]
          injection ends with same
          exact ⟨_, rfl, same ▸ agrees⟩
      | refills advances nextMirrors _ =>
          rw [Run.complete, advances] at ends
          obtain ⟨whole, memoryEnds, agrees⟩ :=
            inductionHypothesis nextMirrors ends
          exact ⟨whole, complete_mono memoryEnds (Nat.le_succ fuel), agrees⟩
      | never stream_none _ => simp [stream_none] at ends

/-- If the run over the whole text ends, so does the run over the stream, with
a step more for each refill. -/
theorem Mirrors.complete_of_memory
    {parser : Parser Context Failure Value}
    {fuel limit : Nat}
    {stream : Run Supply Context Value}
    {memory : Run InMemory Context Value}
    {rest : List CodeUnit}
    {whole : Report Context Failure Value}
    (mirrors : Mirrors parser.compiled.lexicon stream memory rest)
    (ends : memory.complete parser fuel = some whole)
    (enough : fuel + readsLeft stream.window rest ≤ limit) :
    ∃ report, stream.complete parser limit = some report ∧
      report.Agrees whole := by
  induction limit generalizing fuel stream memory rest with
  | zero =>
      obtain rfl : fuel = 0 := by omega
      simp [Run.complete] at ends
  | succ limit inductionHypothesis =>
      cases mirrors.advance with
      | together advances memoryAdvances nextMirrors sameEnd =>
          cases fuel with
          | zero => simp [Run.complete] at ends
          | succ fuel =>
              rw [Run.complete, memoryAdvances] at ends
              rw [Run.complete, advances]
              refine inductionHypothesis nextMirrors ends ?_
              rw [readsLeft, sameEnd, ← readsLeft]
              omega
      | ends advances memoryAdvances agrees =>
          cases fuel with
          | zero => simp [Run.complete] at ends
          | succ fuel =>
              rw [Run.complete, memoryAdvances] at ends
              rw [Run.complete, advances]
              injection ends with same
              exact ⟨_, rfl, same ▸ agrees⟩
      | refills advances nextMirrors fewer =>
          rw [Run.complete, advances]
          exact inductionHypothesis nextMirrors ends (by omega)
      | never _ memory_none => simp [memory_none] at ends

end Run

namespace Parser

section

variable {Supply Context Failure Value : Type} [CharacterData] [Source Supply]

theorem mirrors_start
    (parser : Parser Context Failure Value)
    (context : Context)
    {supply : Supply}
    {units : List CodeUnit}
    (delivers : Delivers supply units) :
    Run.Mirrors parser.compiled.lexicon
      (Run.start parser.options (Window.ofCapacity parser.options.capacity)
        supply context : Run Supply Context Value)
      (Run.start parser.options (Window.ofUnits units) (InMemory.mk []) context)
      units := by
  refine ⟨rfl, rfl, rfl, rfl, rfl, Window.sound_ofCapacity _,
    Window.sound_ofUnits units, delivers, rfl, Window.ofUnits units,
    Window.shows_ofCapacity _ units, ?_, ?_⟩
  · exact fun _ => rfl
  · exact fun scanned => absurd rfl scanned

/-- Parsing a stream gives what parsing the whole text gives: if either parse
ends, both do, and their reports agree. -/
theorem parse_agrees_parseText
    (parser : Parser Context Failure Value)
    (context : Context)
    (text : String)
    (supply : Supply)
    (delivers : Delivers supply (Text.encode text)) :
    (∀ fuel report, parser.parse fuel context supply = some report →
      ∃ whole, parser.parseText fuel context text = some whole ∧
        report.Agrees whole) ∧
    (∀ fuel whole, parser.parseText fuel context text = some whole →
      ∃ report,
        parser.parse (fuel + (Text.encode text).length + 1) context supply =
            some report ∧
          report.Agrees whole) := by
  have mirrors := parser.mirrors_start context delivers
  constructor
  · intro fuel report ends
    exact mirrors.complete ends
  · intro fuel whole ends
    exact mirrors.complete_of_memory ends (Nat.le_refl _)

end

/-- A parser of two faces, with any number of line breaks around them. It
starts with a window of one unit and collects what it reads. -/
def facesParser : Parser (List String) Unit String where
  compiled :=
    { rules := ⟨⟨false,
        #[⟨"$end", .endOfSource⟩, ⟨"$nl", .lineBreak⟩, ⟨"$nonl", .noLineBreak⟩,
          ⟨"face", .terminal (.text "😀") ⟨false, false⟩⟩,
          ⟨"break", .terminal (.text "\r\n") ⟨false, true⟩⟩,
          ⟨"S", .nonTerminal⟩],
        #[⟨"S:1", 5, [3, 3], [], [], []⟩]⟩, 5⟩
      table := ⟨#[⟨[], [(3, 1), (5, 3)], [(3, .shift 1)], none⟩,
        ⟨[], [(3, 2)], [(3, .shift 2)], some 3⟩,
        ⟨[], [], [(0, .reduce 0)], some 3⟩,
        ⟨[], [], [(0, .accept)], some 5⟩], 5, 1⟩
      lexicon :=
        { automaton := ⟨#[
            ⟨[⟨⟨13, 13⟩, ⟨[], some 1⟩⟩, ⟨⟨55357, 55357⟩, ⟨[], some 2⟩⟩],
              .nowhere, false, none, none⟩,
            ⟨[⟨⟨10, 10⟩, ⟨[], some 3⟩⟩], .nowhere, false, none, none⟩,
            ⟨[⟨⟨56832, 56832⟩, ⟨[], some 4⟩⟩], .nowhere, false, none, none⟩,
            ⟨[], .nowhere, true, some 1, none⟩,
            ⟨[], .nowhere, true, some 0, none⟩], 2, 12⟩
          symbols := #[3, 4]
          trivia := #[false, true] } }
  bindings := ⟨[(3, fun text seen => (.ok text, seen ++ [text]))], []⟩
  options := ⟨1, true⟩

/-- Each lexeme is cut where the window ends. Both faces are read, and the error
about a missing one tells the line after the break. -/
theorem parse_agrees_parseText_faces :
    Delivers (InMemory.ofString "😀\r\n😀") (Text.encode "😀\r\n😀") ∧
      Delivers (InMemory.ofString "😀\r\n") (Text.encode "😀\r\n") ∧
      (∃ report whole,
        @parse _ _ _ _ Unicode.standard _ facesParser 30 []
            (InMemory.ofString "😀\r\n😀") = some report ∧
          @parseText _ _ _ Unicode.standard facesParser 30 [] "😀\r\n😀" =
            some whole ∧
          report.Agrees whole ∧ report.context = ["😀", "😀"] ∧
          report.statistics.windowShifts = 3) ∧
      ∃ report whole error,
        @parse _ _ _ _ Unicode.standard _ facesParser 35 []
            (InMemory.ofString "😀\r\n") = some report ∧
          @parseText _ _ _ Unicode.standard facesParser 30 [] "😀\r\n" =
            some whole ∧
          report.Agrees whole ∧ whole.result = .error error ∧
          error.location = some ⟨2, 1⟩ := by
  let _ : CharacterData := Unicode.standard
  have delivers := InMemory.delivers (Text.encode "😀\r\n😀")
  have deliversOne := InMemory.delivers (Text.encode "😀\r\n")
  refine ⟨delivers, deliversOne, ?two, ?one⟩
  case two =>
    have ends : (facesParser.parse 30 [] (InMemory.ofString "😀\r\n😀")).map
        (fun report => (report.context, report.statistics.windowShifts)) =
          some (["😀", "😀"], 3) := by
      decide +kernel
    obtain ⟨report, parsed, isReport⟩ := Option.map_eq_some_iff.mp ends
    obtain ⟨isContext, areShifts⟩ := Prod.mk.inj isReport
    obtain ⟨whole, wholeParsed, agrees⟩ :=
      (parse_agrees_parseText facesParser [] _ _ delivers).1 30 report parsed
    exact ⟨report, whole, parsed, wholeParsed, agrees, isContext, areShifts⟩
  case one =>
    have ends : (facesParser.parseText 30 [] "😀\r\n").map (fun whole =>
        match whole.result with
        | .ok _ => none
        | .error error => some error.location) = some (some (some ⟨2, 1⟩)) := by
      decide +kernel
    obtain ⟨whole, wholeParsed, isWhole⟩ := Option.map_eq_some_iff.mp ends
    obtain ⟨report, parsed, agrees⟩ :=
      (parse_agrees_parseText facesParser [] _ _ deliversOne).2 30 whole
        wholeParsed
    cases isResult : whole.result with
    | ok value => simp [isResult] at isWhole
    | error error =>
        rw [isResult] at isWhole
        exact ⟨report, whole, error, parsed, wholeParsed, agrees, isResult,
          Option.some.inj isWhole⟩

end Parser
end Parse
end ParserGenerator
