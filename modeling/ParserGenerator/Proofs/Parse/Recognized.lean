import ParserGenerator.Proofs.Parse.Failing

/-!
# What a failed parse had recognised

The decisions of a parse tell which symbols are on its stack. A parse that fails
over a token that cannot come next, or over its source, names them in its error.
A parse that comes to text that no terminal matches names none, whatever is on
its stack.
-/

open ParserGenerator.Stream

namespace ParserGenerator
namespace Parse

open Table (Rules)

variable {Supply Context Failure Value : Type}

/-! ## The stack as decisions tell it -/

/-- What a decision about a token makes of the symbols on the stack, the lowest
first. -/
def Decision.restack (rules : Rules) (token : Token)
    (symbols : List SymbolId) : Decision → List SymbolId
  | .shiftMarker _ marker => symbols ++ [marker]
  | .shift _ => symbols ++ [token.symbol]
  | .reduce production =>
      symbols.rdrop (rules.body production).length ++
        (rules.head? production).toList
  | .accept => symbols
  | .reject => symbols

/-- The symbols on the stack after some events, the latest first. -/
def symbolsAfter (rules : Rules) : List (Event Value) → List SymbolId
  | [] => []
  | .decided decision :: .considered _ token :: earlier =>
      decision.restack rules token (symbolsAfter rules earlier)
  | _ :: earlier => symbolsAfter rules earlier

namespace Configuration

variable {rules : Rules} {table : Table}
  {bindings : Bindings Context Failure Value}
  {configuration next : Configuration Context Value} {token : Token}
  {decision : Decision}

/-- A decision that is carried out makes of the stack what it says. -/
theorem symbols_of_perform
    (performed :
      configuration.perform rules table bindings token decision =
          .kept next ∨
        configuration.perform rules table bindings token decision =
          .consumed next) :
    next.symbols = decision.restack rules token configuration.symbols := by
  rcases performed with isKept | isConsumed
  · rcases perform_eq_kept isKept with
      ⟨target, marker, rfl, rfl⟩ | ⟨production, rfl, reduced⟩
    · exact List.reverse_cons
    · obtain ⟨head, value, after, target, -, isHead, -, rfl⟩ :=
        reduce_eq_kept reduced
      simp [symbols, Decision.restack, isHead,
        List.rdrop_eq_reverse_drop_reverse]
  · obtain ⟨target, rfl, shifted⟩ := perform_eq_consumed isConsumed
    unfold shift at shifted
    split at shifted
    · obtain rfl := Outcome.consumed.inj shifted
      exact List.reverse_cons
    · simp at shifted

end Configuration

namespace Run

variable [CharacterData] [Source Supply]
  {parser : Parser Context Failure Value}
  {run next : Run Supply Context Value}

/-- The symbols on the stack are those that the events tell of. -/
def Recounts (parser : Parser Context Failure Value)
    (run : Run Supply Context Value) : Prop :=
  run.configuration.symbols = symbolsAfter parser.compiled.rules run.events

omit [CharacterData] [Source Supply] in
theorem recounts_start
    (parser : Parser Context Failure Value)
    (window : Window)
    (supply : Supply)
    (context : Context) :
    (Run.start parser.options window supply context).Recounts parser := rfl

theorem Recounts.goesOn
    (recounts : run.Recounts parser)
    (goesOn : run.GoesOn parser next) :
    next.Recounts parser := by
  unfold Recounts at recounts ⊢
  cases goesOn with
  | scans _ _ _ _ configuration events =>
      rcases events with same | scanned
      · rw [configuration, same, recounts]
      · rw [configuration, scanned, recounts]
        rfl
  | refills _ _ _ _ configuration events =>
      rcases events with same | grown
      · rw [configuration, same, recounts]
      · rw [configuration, grown, recounts]
        rfl
  | decides atToken _ _ _ outcome events =>
      rw [events, symbolsAfter, ← recounts]
      exact Configuration.symbols_of_perform
        (outcome.imp And.left And.left)

end Run

namespace Parser

/-- An error over a token that cannot come next or over the source names the
symbols on the stack of the last run, the lowest first, which are those that the
decisions of the parse have left there. An error over text that no terminal
matches names none of them. -/
theorem stack_of_error
    [CharacterData]
    [Source Supply]
    (parser : Parser Context Failure Value)
    (window : Window)
    (supply : Supply)
    (context : Context)
    (fuel : Nat)
    (report : Report Context Failure Value)
    (error : ParseError Failure)
    (ends : (Run.start parser.options window supply context).complete parser
      fuel = some report)
    (failed : report.result = .error error)
    (ofInput : (∃ description, error.cause = .unexpectedToken description) ∨
      (∃ failure, error.cause = .source failure) ∨
      error.cause = .unrecognizedInput) :
    ∃ last ∈ (Run.start parser.options window supply context).visited parser
        fuel,
      last.advance parser = .finished report ∧
      last.configuration.symbols =
        symbolsAfter parser.compiled.rules report.events.reverse ∧
      (error.cause ≠ .unrecognizedInput → error.stack =
        " ".intercalate
          (last.configuration.symbols.map parser.compiled.grammar.name)) ∧
      (error.cause = .unrecognizedInput → error.stack = "") := by
  obtain ⟨last, member, finished⟩ := Run.complete_eq_some_iff.mp ends
  have recounts : last.Recounts parser :=
    Run.holds_of_mem_visited (fun _ _ => Run.Recounts.goesOn)
      (Run.recounts_start parser window supply context) last member
  refine ⟨last, member, finished, ?_⟩
  cases Run.fails_of_advance finished failed with
  | unrecognized _ _ isError isEvents =>
      subst isError
      rw [isEvents, List.reverse_reverse]
      exact ⟨recounts, fun other => absurd rfl other, fun _ => rfl⟩
  | source _ _ _ cause stack isEvents =>
      refine ⟨?_, fun _ => stack, fun impossible => ?_⟩
      · rcases isEvents with same | ⟨capacity, grown⟩
        · rw [same, List.reverse_reverse]
          exact recounts
        · rw [grown, List.reverse_append, List.reverse_reverse]
          exact recounts
      · simp [cause] at impossible
  | decides atToken outcome isError isEvents =>
      subst isError
      rcases Configuration.perform_eq_failed outcome with
        ⟨decided, rfl, rfl⟩ | ⟨failure, rfl⟩ | rfl | ⟨head, rfl⟩
      · have restacked : symbolsAfter parser.compiled.rules
            report.events.reverse = last.configuration.symbols := by
          rw [isEvents, List.reverse_append, List.reverse_reverse]
          show Decision.restack _ _ _ _ = _
          rw [decided, recounts]
          rfl
        exact ⟨restacked.symm, fun _ => rfl, nofun⟩
      all_goals simp at ofInput

theorem stack_of_error_twoLetter :
    ∃ report error,
      @parseText _ _ _ .ascii twoLetterParser 10 () "a" = some report ∧
        report.result = .error error ∧
        error.cause = .unexpectedToken "end of input" ∧
        error.stack = "a" ∧
        ∃ last : Run InMemory Unit Unit,
          @Run.advance _ _ _ _ .ascii _ twoLetterParser last =
            .finished report ∧
          error.stack = " ".intercalate (last.configuration.symbols.map
            twoLetterParser.compiled.grammar.name) := by
  let _ : CharacterData := .ascii
  have fails : (twoLetterParser.parseText 10 () "a").map Report.result =
      some (.error ⟨.unexpectedToken "end of input", 1, some ⟨1, 2⟩, "",
        "a"⟩) := by
    decide +kernel
  obtain ⟨report, ends, failed⟩ := Option.map_eq_some_iff.mp fails
  obtain ⟨last, -, finished, -, names, -⟩ := stack_of_error twoLetterParser
    (Window.ofUnits (Text.encode "a")) (InMemory.mk []) () 10 report _ ends
    failed (.inl ⟨_, rfl⟩)
  exact ⟨report, _, ends, failed, rfl, rfl, last, finished, names nofun⟩

/-- After a letter, text that no terminal matches makes the parse fail with an
error that names no symbol, though the letter is on the stack. -/
theorem stack_of_unrecognized_twoLetter :
    ∃ report error, ∃ last : Run InMemory Unit Unit,
      (@Compiled.compile .ascii twoLetterGrammar "S" none).result =
          .ok twoLetterParser.compiled ∧
        @parseText _ _ _ .ascii twoLetterParser 10 () "ax" = some report ∧
        @Run.advance _ _ _ _ .ascii _ twoLetterParser last = .finished report ∧
        report.result = .error error ∧
        error.cause = .unrecognizedInput ∧
        " ".intercalate (last.configuration.symbols.map
          twoLetterParser.compiled.grammar.name) = "a" ∧
        error.stack = "" := by
  let _ : CharacterData := .ascii
  have fails : (twoLetterParser.parseText 10 () "ax").map Report.result =
      some (.error ⟨.unrecognizedInput, 1, some ⟨1, 2⟩, "x", ""⟩) := by
    decide +kernel
  have stacked : ((Run.start twoLetterParser.options
      (Window.ofUnits (Text.encode "ax")) (InMemory.mk []) ()).visited
        twoLetterParser 10).all (fun run =>
          match run.advance twoLetterParser with
          | .ongoing _ => true
          | .finished _ => run.configuration.symbols = [3]) = true := by
    decide +kernel
  obtain ⟨report, ends, failed⟩ := Option.map_eq_some_iff.mp fails
  obtain ⟨last, member, finished⟩ := Run.complete_eq_some_iff.mp ends
  have letter : last.configuration.symbols = [3] := by
    have atLast := List.all_eq_true.mp stacked last member
    rw [finished] at atLast
    exact of_decide_eq_true atLast
  refine ⟨report, _, last, compile_twoLetterGrammar, ends, finished, failed,
    rfl, ?_, rfl⟩
  rw [letter]
  rfl

end Parser
end Parse
end ParserGenerator
