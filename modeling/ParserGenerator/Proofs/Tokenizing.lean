import Mathlib
import ParserGenerator.Proofs.Lexemes
import ParserGenerator.Proofs.Parse.Streaming

/-!
# Tokenizing

A scan of a text gives its tokens. It stops at the end of the text, or where no
terminal matches; how the text comes into the window makes no difference. One
call of the scanner skips lexemes up to the next token or to the end of what
the window tells, and a run goes on from there.
-/

open ParserGenerator.Stream
open ParserGenerator.Parse.Run (readsLeft readsLeft_accept_lt)

namespace ParserGenerator

/-! ## Scanning -/

/-- The lexeme of the given length at the front of a window. -/
def Stream.Window.lexeme (window : Window) (terminal length : Nat) : Lexeme :=
  ⟨terminal, window.position, window.pending.take length⟩

theorem Stream.Window.stop_lexeme
    {window : Window}
    {terminal length : Nat}
    (available : length ≤ window.pending.length) :
    (window.lexeme terminal length).stop =
      (window.consume length).position := by
  rw [position_consume]
  show window.position + (window.pending.take length).length = _
  rw [List.length_take, Nat.min_eq_left available]

/-- A window shows what follows in a text at the position it has come to. -/
def Stream.Window.Views (window : Window) (text rest : List CodeUnit) : Prop :=
  window.Shows ((Window.ofUnits text).consume window.position) rest

namespace Stream.Window.Views

variable {window : Window} {text rest : List CodeUnit}

theorem pending
    (views : window.Views text rest) :
    text.drop window.position = window.pending ++ rest :=
  Shows.pending views

theorem consume
    (views : window.Views text rest)
    {count : Nat}
    (available : count ≤ window.pending.length) :
    (window.consume count).Views text rest := by
  have same : ((Window.ofUnits text).consume window.position).consume count =
      (Window.ofUnits text).consume (window.position + count) := by
    simp [Window.consume, Nat.add_assoc]
  rw [Views, position_consume, ← same]
  exact Shows.consume views available

theorem accept
    {piece after : List CodeUnit}
    (views : window.Views text (piece ++ after))
    (last : piece = [] → piece ++ after = []) :
    (window.prepare.accept piece).Views text after := by
  rw [Views, position_accept, position_prepare]
  exact Shows.accept views last

end Stream.Window.Views

theorem Stream.Window.views_of_shows
    {window : Window}
    {text rest : List CodeUnit}
    (shows : window.Shows (Window.ofUnits text) rest) :
    window.Views text rest := by
  have atStart : window.position = 0 := shows.position.symm
  rw [Views, atStart]
  exact shows

/-- Scanning keeps a window over its text. -/
theorem Scanner.views_scan
    [CharacterData]
    {text rest : List CodeUnit}
    {window : Window}
    (lexicon : Lexicon)
    (scanner : Scanner)
    (views : window.Views text rest) :
    (scanner.scan lexicon window).2.2.Views text rest := by
  fun_induction scan lexicon scanner window with
  | case1 | case2 | case3 | case4 | case6 => exact views
  | case5 scanner window nonempty terminal length found units position
      observed trivia positive inductionHypothesis =>
      exact inductionHypothesis
        (views.consume (Lexical.Automaton.length_le_of_longestMatch found))
  | case7 scanner window nonempty terminal length found units position
      observed significant =>
      exact views.consume (Lexical.Automaton.length_le_of_longestMatch found)

theorem any_isLineBreak_iff {units : List CodeUnit} :
    units.any isLineBreak = true ↔
      ∃ unit ∈ units,
        unit = 0x000A ∨ unit = 0x000D ∨ unit = 0x2028 ∨ unit = 0x2029 := by
  simp [isLineBreak, lineFeed, carriageReturn, or_assoc]

theorem not_lineBreakBetween_self (text : List CodeUnit) (offset : Nat) :
    ¬LineBreakBetween text offset offset := by
  rintro ⟨unit, member, -⟩
  rw [List.drop_take, Nat.sub_self, List.take_zero] at member
  exact List.not_mem_nil member

/-- A line break up to some units or in them. -/
theorem lineBreakBetween_add
    {text : List CodeUnit}
    {previous position : Nat}
    (after : previous ≤ position)
    (within : position ≤ text.length)
    (length : Nat) :
    LineBreakBetween text previous (position + length) ↔
      LineBreakBetween text previous position ∨
        ((text.drop position).take length).any isLineBreak = true := by
  have split : (text.take (position + length)).drop previous =
      (text.take position).drop previous ++
        (text.drop position).take length := by
    rw [List.take_add, List.drop_append_of_le_length]
    rw [List.length_take]
    omega
  rw [any_isLineBreak_iff, LineBreakBetween, split, LineBreakBetween]
  simp only [List.mem_append, or_and_right, exists_or]

namespace Scanner

/-- A scanner and a window that have come to a place in a text, where
`previous` is the end of the last token. -/
structure Reached (text : List CodeUnit) (previous : Nat) (scanner : Scanner)
    (window : Window) (rest : List CodeUnit) : Prop where
  views : window.Views text rest
  within : window.position ≤ text.length
  after : previous ≤ window.position
  lineBreak : scanner.lineBreak = true ↔
    LineBreakBetween text previous window.position

variable {text rest : List CodeUnit} {previous : Nat} {scanner : Scanner}
  {window : Window}

namespace Reached

theorem take_pending
    (reached : Reached text previous scanner window rest)
    {length : Nat}
    (available : length ≤ window.pending.length) :
    (text.drop window.position).take length = window.pending.take length := by
  rw [reached.views.pending, List.take_append_of_le_length available]

theorem add_le
    (reached : Reached text previous scanner window rest)
    {length : Nat}
    (available : length ≤ window.pending.length) :
    window.position + length ≤ text.length := by
  have pending := congrArg List.length reached.views.pending
  rw [List.length_drop, List.length_append] at pending
  have within := reached.within
  omega

theorem skip
    (reached : Reached text previous scanner window rest)
    {length : Nat}
    (available : length ≤ window.pending.length) :
    Reached text previous
      ((scanner.observe window.position (window.pending.take length)).skip
        (window.pending.take length))
      (window.consume length) rest where
  views := reached.views.consume available
  within := by
    rw [Window.position_consume]
    exact reached.add_le available
  after := by
    rw [Window.position_consume]
    exact Nat.le_trans reached.after (Nat.le_add_right _ _)
  lineBreak := by
    rw [Window.position_consume,
      lineBreakBetween_add reached.after reached.within,
      reached.take_pending available, ← reached.lineBreak, ← Bool.or_eq_true]
    rfl

theorem emit
    (reached : Reached text previous scanner window rest)
    {length : Nat}
    (available : length ≤ window.pending.length)
    (units : List CodeUnit) :
    Reached text (window.consume length).position
      (scanner.observe window.position units).emit (window.consume length)
      rest where
  views := reached.views.consume available
  within := by
    rw [Window.position_consume]
    exact reached.add_le available
  after := Nat.le_refl _
  lineBreak := iff_of_false Bool.noConfusion (not_lineBreakBetween_self _ _)

theorem accept
    {piece later : List CodeUnit}
    (reached : Reached text previous scanner window (piece ++ later))
    (last : piece = [] → piece ++ later = []) :
    Reached text previous scanner (window.prepare.accept piece) later := by
  obtain ⟨views, within, after, lineBreak⟩ := reached
  refine ⟨views.accept last, ?_, ?_, ?_⟩ <;>
    rwa [Window.position_accept, Window.position_prepare]

/-- What a window tells about the next lexeme is what the text tells. -/
theorem longestMatch_eq
    [CharacterData]
    {automaton : Lexical.Automaton}
    {answer : Lexical.Match}
    (reached : Reached text previous scanner window rest)
    (told : automaton.longestMatch window.pending window.atEnd = answer)
    (known : answer ≠ .needMore) :
    automaton.longestMatch (text.drop window.position) true = answer := by
  rw [← told] at known ⊢
  exact reached.views.longestMatch_eq automaton known

/-- What is found in the window is the longest match of what is left of the
text. -/
theorem longest_lexeme
    [CharacterData]
    {grammar : Grammar}
    {terminal length : Nat}
    (reached : Reached text previous scanner window rest)
    (found : grammar.automaton.longestMatch window.pending window.atEnd =
      .found terminal length)
    (positive : 0 < length) :
    (window.lexeme terminal length).Longest grammar text := by
  have isLength : (window.pending.take length).length = length := by
    rw [List.length_take]
    exact Nat.min_eq_left (Lexical.Automaton.length_le_of_longestMatch found)
  refine ⟨?_, ?_, ?_⟩
  · exact List.ne_nil_of_length_pos (isLength.symm ▸ positive)
  · show window.pending.take length <+: text.drop window.position
    rw [reached.views.pending]
    exact (List.take_prefix _ _).trans (List.prefix_append _ _)
  · show grammar.automaton.longestMatch (text.drop window.position) true =
      .found terminal (window.pending.take length).length
    rw [isLength]
    exact reached.longestMatch_eq found nofun

end Reached

variable [CharacterData]

/-- How a scan goes on from an offset of a text. -/
inductive Advances (grammar : Grammar) (text : List CodeUnit) (previous : Nat)
    (rest : List CodeUnit) (start : Nat) : Scan × Scanner × Window → Prop
  /-- To the end of a token. -/
  | token
      {lexemes : List Lexeme}
      {token : Token}
      {scanner : Scanner}
      {window : Window}
      (cuts : Cuts grammar text previous start lexemes [token] window.position
        window.position)
      (notEnd : token.isEnd = false)
      (moves : start < window.position)
      (reached : Reached text window.position scanner window rest) :
      Advances grammar text previous rest start (.token token, scanner, window)
  /-- To the end of the text. -/
  | ends
      {lexemes : List Lexeme}
      {token : Token}
      {scanner : Scanner}
      {window : Window}
      (cuts : Cuts grammar text previous start lexemes [] previous text.length)
      (denotesEnd : token.DenotesEnd text previous) :
      Advances grammar text previous rest start (.token token, scanner, window)
  /-- To an offset at which nothing matches. -/
  | unrecognized
      {lexemes : List Lexeme}
      {lexeme : String}
      {scanner : Scanner}
      {window : Window}
      (cuts : Cuts grammar text previous start lexemes [] previous
        window.position)
      (uncovered : window.position < text.length)
      (noMatch : grammar.automaton.longestMatch (text.drop window.position)
        true = .noMatch) :
      Advances grammar text previous rest start
        (.unrecognized lexeme, scanner, window)
  /-- To the end of what the window tells. -/
  | needInput
      {lexemes : List Lexeme}
      {scanner : Scanner}
      {window : Window}
      (cuts : Cuts grammar text previous start lexemes [] previous
        window.position)
      (open' : window.atEnd = false)
      (reached : Reached text previous scanner window rest) :
      Advances grammar text previous rest start (.needInput, scanner, window)

/-- Lexemes that are skipped may come first. -/
theorem Advances.skip
    {grammar : Grammar}
    {start middle : Nat}
    {skipped : List Lexeme}
    {result : Scan × Scanner × Window}
    (cuts : Cuts grammar text previous start skipped [] previous middle)
    (advances : Advances grammar text previous rest middle result) :
    Advances grammar text previous rest start result := by
  cases advances with
  | token later notEnd moves reached =>
      exact .token (cuts.append later) notEnd
        (Nat.lt_of_le_of_lt cuts.consecutive.le moves) reached
  | ends later denotesEnd => exact .ends (cuts.append later) denotesEnd
  | unrecognized later uncovered noMatch =>
      exact .unrecognized (cuts.append later) uncovered noMatch
  | needInput later open' reached =>
      exact .needInput (cuts.append later) open' reached

section Declared

variable {grammar : Grammar}

/-- A scan from a place in a text goes on from there. -/
theorem scan_advances
    (apart : CharacterData.SurrogatesApart)
    (declared : grammar.Declared)
    (normal : ∀ terminal ∈ grammar.lexicalTerminals, terminal.pattern.Normal)
    (reached : Reached text previous scanner window rest) :
    Advances grammar text previous rest window.position
      (scanner.scan (Lexicon.ofGrammar grammar) window) := by
  fun_induction scan (Lexicon.ofGrammar grammar) scanner window with
  | case1 scanner window empty ended =>
      have atEnd : window.position = text.length := by
        have nothing := reached.views.pending
        rw [List.isEmpty_iff.mp empty, reached.views.ended ended,
          List.append_nil, List.drop_eq_nil_iff] at nothing
        exact Nat.le_antisymm reached.within nothing
      have lineBreak := reached.lineBreak
      rw [atEnd] at lineBreak ⊢
      exact .ends (.nil _ _) ⟨rfl, rfl, rfl, lineBreak⟩
  | case2 scanner window empty open' =>
      exact .needInput (.nil _ _) (by simpa using open') reached
  | case3 scanner window nonempty needMore =>
      have open' : window.atEnd = false := by
        rw [Bool.eq_false_iff]
        intro ended
        rw [ended] at needMore
        exact Lexical.Automaton.longestMatch_atEnd_ne_needMore _ _ needMore
      exact .needInput (.nil _ _) open' reached
  | case4 scanner window nonempty noMatch =>
      have uncovered : window.position < text.length := by
        rw [← Nat.not_le, ← List.drop_eq_nil_iff, reached.views.pending,
          List.append_eq_nil_iff]
        exact fun nothing => nonempty (List.isEmpty_iff.mpr nothing.1)
      exact .unrecognized (.nil _ _) uncovered
        (reached.longestMatch_eq noMatch (by simp))
  | case5 scanner window nonempty terminal length found units position
      observed trivia positive inductionHypothesis =>
      have available := Lexical.Automaton.length_le_of_longestMatch found
      obtain ⟨-, ⟨symbol, pattern, options, numbers⟩, -⟩ :=
        Grammar.numbers_of_found apart declared normal
          (reached.longestMatch_eq found (by simp))
      have isTrivia := numbers.isTrivia_lexicon.symm.trans trivia
      have cuts := Cuts.trivia previous (reached.longest_lexeme found positive)
        ⟨symbol, pattern, options, numbers, isTrivia⟩
      rw [Window.stop_lexeme available] at cuts
      exact (inductionHypothesis (reached.skip available)).skip cuts
  | case6 scanner window nonempty terminal length found units position
      observed trivia zero =>
      -- No declared terminal is nullable, so that scanning never stalls.
      obtain ⟨positive, -⟩ :=
        Grammar.numbers_of_found apart declared normal
          (reached.longestMatch_eq found (by simp))
      exact absurd positive zero
  | case7 scanner window nonempty terminal length found units position
      observed significant =>
      obtain ⟨positive, ⟨symbol, pattern, options, numbers⟩, encodes⟩ :=
        Grammar.numbers_of_found apart declared normal
          (reached.longestMatch_eq found (by simp))
      have available := Lexical.Automaton.length_le_of_longestMatch found
      rw [reached.take_pending available] at encodes
      have isSignificant : options.isTrivia = false := by
        rw [← numbers.isTrivia_lexicon]
        simpa using significant
      have notEnd : (symbol == Grammar.endSymbol) = false := by
        simpa using numbers.symbol_ne_endSymbol declared.wellFormed
      have denotes : Token.Denotes grammar text previous
          (window.lexeme terminal length)
          ⟨symbol, Text.decode units, position, observed.lineBreak⟩ :=
        ⟨⟨pattern, options, numbers, isSignificant⟩, notEnd, rfl, encodes,
          reached.lineBreak⟩
      have cuts := Cuts.token (reached.longest_lexeme found positive) denotes
      rw [Window.stop_lexeme available] at cuts
      rw [numbers.symbol_lexicon]
      refine .token cuts notEnd ?_ (reached.emit available _)
      rw [Window.position_consume]
      exact Nat.lt_add_of_pos_right positive

end Declared

/-! ## Whole texts -/

/-- The scan has come to the end of the text. -/
structure Tokens.Completes (text : List CodeUnit) (tokens : List Token)
    (last stop : Nat) (result : Tokens) : Prop where
  covers : stop = text.length
  recognized : result.unrecognized = none
  isTokens : ∃ token, token.DenotesEnd text last ∧
    result.tokens.map Prod.fst = tokens ++ [token]

/-- The scan has stopped before the end of the text, where no terminal
matches. -/
structure Tokens.Fails (grammar : Grammar) (text : List CodeUnit)
    (tokens : List Token) (stop : Nat) (result : Tokens) : Prop where
  uncovered : stop < text.length
  noMatch : grammar.automaton.longestMatch (text.drop stop) true = .noMatch
  unmatched : ∀ terminal ∈ grammar.lexicalTerminals, ∀ length,
    ¬Lexical.Spans grammar.anyCase (text.drop stop) terminal.pattern length
  unrecognized : result.unrecognized.isSome = true
  position : result.window.position = stop
  isTokens : result.tokens.map Prod.fst = tokens

/-- The tokens of a text from an offset on, where `previous` is the end of the
token before. -/
def Tokens.Continues (grammar : Grammar) (text : List CodeUnit)
    (previous start : Nat) (result : Tokens) : Prop :=
  ∃ lexemes tokens last stop,
    Cuts grammar text previous start lexemes tokens last stop ∧
      (result.Completes text tokens last stop ∨
        result.Fails grammar text tokens stop)

namespace Tokens.Continues

variable {grammar : Grammar} {start middle : Nat} {lexemes : List Lexeme}
  {result : Tokens}

theorem skip
    (cuts : Cuts grammar text previous start lexemes [] previous middle)
    (continues : result.Continues grammar text previous middle) :
    result.Continues grammar text previous start := by
  obtain ⟨others, tokens, last, stop, later, ending⟩ := continues
  exact ⟨lexemes ++ others, tokens, last, stop, cuts.append later, ending⟩

theorem cons
    {token : Token}
    (location : Option Position)
    (cuts : Cuts grammar text previous start lexemes [token] middle middle)
    (continues : result.Continues grammar text middle middle) :
    Tokens.Continues grammar text previous start
      { result with tokens := (token, location) :: result.tokens } := by
  obtain ⟨others, tokens, last, stop, later, ending⟩ := continues
  refine ⟨lexemes ++ others, token :: tokens, last, stop, cuts.append later, ?_⟩
  rcases ending with ⟨covers, recognized, endToken, denotesEnd, isTokens⟩ |
    ⟨uncovered, noMatch, unmatched, unrecognized, position, isTokens⟩
  · refine .inl ⟨covers, recognized, endToken, denotesEnd, ?_⟩
    rw [List.map_cons, isTokens, List.cons_append]
  · refine .inr ⟨uncovered, noMatch, unmatched, unrecognized, position, ?_⟩
    rw [List.map_cons, isTokens]

end Tokens.Continues

/-- A grammar with a letter and with line feeds that are skipped. -/
def letterGrammar : Grammar :=
  ⟨false,
    #[⟨"$end", .endOfSource⟩, ⟨"$nl", .lineBreak⟩, ⟨"$nonl", .noLineBreak⟩,
      ⟨"a", .terminal (.text "a") ⟨false, false⟩⟩,
      ⟨"break", .terminal (.text "\n") ⟨false, true⟩⟩],
    #[]⟩

section Runs

variable {Supply : Type} [Source Supply] {grammar : Grammar}

/-- A run from a place in a text gives the tokens from there on, if there are
enough steps for the reads and the tokens. -/
theorem continues_tokensWithin
    {supply : Supply}
    {fuel : Nat}
    (apart : CharacterData.SurrogatesApart)
    (declared : grammar.Declared)
    (normal : ∀ terminal ∈ grammar.lexicalTerminals, terminal.pattern.Normal)
    (reached : Reached text previous scanner window rest)
    (sound : window.Sound)
    (delivers : Delivers supply rest)
    (enough : readsLeft window rest + (text.length - window.position) < fuel) :
    Tokens.Continues grammar text previous window.position
      (tokensWithin (Lexicon.ofGrammar grammar) fuel scanner window supply) := by
  -- A token moves the position and a refill leaves fewer reads, so that either
  -- way fewer steps are enough for what is left.
  induction fuel generalizing previous scanner window supply rest with
  | zero => exact absurd enough (Nat.not_lt_zero _)
  | succ fuel inductionHypothesis =>
      have advances := scan_advances apart declared normal reached
      have nextSound := sound_scan (Lexicon.ofGrammar grammar) scanner sound
      have sameEnd := atEnd_scan (Lexicon.ofGrammar grammar) scanner window
      unfold tokensWithin
      generalize scanner.scan (Lexicon.ofGrammar grammar) window = scan
        at advances nextSound sameEnd
      cases advances with
      | @token lexemes token after next cuts notEnd moves nextReached =>
          have sameReads : readsLeft next rest = readsLeft window rest := by
            rw [readsLeft, readsLeft, sameEnd]
          have within := nextReached.within
          have continues := inductionHypothesis nextReached nextSound delivers
            (by omega)
          simp only [notEnd]
          exact continues.cons (after.location token.position) cuts
      | @ends lexemes token after next cuts denotesEnd =>
          simp only [denotesEnd.isEnd]
          exact ⟨lexemes, [], previous, text.length, cuts,
            .inl ⟨rfl, rfl, token, denotesEnd, rfl⟩⟩
      | @unrecognized lexemes lexeme after next cuts uncovered noMatch =>
          exact ⟨lexemes, [], previous, next.position, cuts,
            .inr ⟨uncovered, noMatch, fun terminal member =>
              Grammar.not_spans_of_noMatch apart normal noMatch member, rfl,
              rfl, rfl⟩⟩
      | @needInput lexemes after next cuts open' nextReached =>
          obtain ⟨piece, later, supply, fills, split, last, filledSound,
              laterDelivers⟩ := Window.fill_of_delivers nextSound delivers
          subst split
          have fewer := @readsLeft_accept_lt window next piece later open'
            sameEnd
          have forward := cuts.consecutive.le
          have samePosition : (next.prepare.accept piece).position =
              next.position := by
            rw [Window.position_accept, Window.position_prepare]
          have continues := inductionHypothesis (nextReached.accept last)
            filledSound laterDelivers (by omega)
          rw [samePosition] at continues
          simp only [fills]
          exact continues.skip cuts

/-- A text is cut into lexemes up to its end or to a place where no terminal
matches, and the tokens are those of the lexemes. -/
def Tokens.Tokenizes (grammar : Grammar) (text : List CodeUnit)
    (result : Tokens) : Prop :=
  ∃ lexemes tokens last stop,
    lexemes.flatMap Lexeme.units ++ text.drop stop = text ∧
      Cuts grammar text 0 0 lexemes tokens last stop ∧
      (result.Completes text tokens last stop ∨
        result.Fails grammar text tokens stop)

/-- The scan of a whole text gives its tokens. -/
theorem tokenizes_of_shows
    {supply : Supply}
    {fuel : Nat}
    (apart : CharacterData.SurrogatesApart)
    (declared : grammar.Declared)
    (normal : ∀ terminal ∈ grammar.lexicalTerminals, terminal.pattern.Normal)
    (trackLines : Bool)
    (shows : window.Shows (Window.ofUnits text) rest)
    (sound : window.Sound)
    (delivers : Delivers supply rest)
    (enough : 2 * text.length + 2 ≤ fuel) :
    Tokens.Tokenizes grammar text
      (tokensWithin (Lexicon.ofGrammar grammar) fuel (start trackLines) window
        supply) := by
  have atStart : window.position = 0 := shows.position.symm
  have reached : Reached text 0 (start trackLines) window rest := by
    refine ⟨Window.views_of_shows shows, ?_, Nat.zero_le _, ?_⟩
    · rw [atStart]
      exact Nat.zero_le _
    · rw [atStart]
      exact iff_of_false Bool.noConfusion (not_lineBreakBetween_self _ _)
  have fewReads : readsLeft window rest ≤ text.length + 1 := by
    have pending := congrArg List.length shows.pending
    rw [List.length_append] at pending
    have total : text.length = window.pending.length + rest.length := pending
    unfold readsLeft
    split <;> omega
  obtain ⟨lexemes, tokens, last, stop, cuts, ending⟩ :=
    continues_tokensWithin apart declared normal reached sound delivers
      (show _ < fuel by omega)
  rw [atStart] at cuts
  exact ⟨lexemes, tokens, last, stop,
    (cuts.consecutive.flatMap_units cuts.longest).symm, cuts, ending⟩

/-- However a text comes into the window, piece by piece or all at once, a scan
of it gives its tokens. -/
theorem tokenizes_tokensWithin
    (apart : CharacterData.SurrogatesApart)
    (declared : grammar.Declared)
    (normal : ∀ terminal ∈ grammar.lexicalTerminals, terminal.pattern.Normal)
    (trackLines : Bool)
    (text : List CodeUnit)
    (supply : Supply)
    (fuel : Nat)
    (enough : 2 * text.length + 2 ≤ fuel) :
    (Delivers supply text → ∀ capacity,
      Tokens.Tokenizes grammar text
        (tokensWithin (Lexicon.ofGrammar grammar) fuel (start trackLines)
          (Window.ofCapacity capacity) supply)) ∧
    (Delivers supply [] →
      Tokens.Tokenizes grammar text
        (tokensWithin (Lexicon.ofGrammar grammar) fuel (start trackLines)
          (Window.ofUnits text) supply)) := by
  constructor
  · intro delivers capacity
    exact tokenizes_of_shows apart declared normal trackLines
      ⟨rfl, rfl, rfl, nofun⟩ (Window.sound_ofCapacity capacity) delivers enough
  · intro delivers
    exact tokenizes_of_shows apart declared normal trackLines
      ⟨(List.append_nil _).symm, rfl, rfl, fun _ => rfl⟩
      (Window.sound_ofUnits text) delivers enough

end Runs

omit [CharacterData] in
theorem declared_letterGrammar : letterGrammar.Declared :=
  (Grammar.Declared.empty false).declareAll
    [.terminal "a" (.text "a") ⟨false, false⟩,
      .terminal "break" (.text "\n") ⟨false, true⟩]
    (by cbv)

omit [CharacterData] in
theorem tokenizes_tokensWithin_letter :
    ∃ result : Tokens,
      @tokensWithin .ascii _ _ (@Lexicon.ofGrammar .ascii letterGrammar) 10
          (start true) (Window.ofCapacity 1) (InMemory.mk [97, 10, 97, 98]) =
        result ∧
      @Tokens.Tokenizes .ascii letterGrammar [97, 10, 97, 98] result ∧
      result.tokens.map Prod.fst =
        [⟨3, "a", 0, false⟩, ⟨3, "a", 2, true⟩] ∧
      result.unrecognized = some "b" ∧
      result.window.position = 3 := by
  have terminals : letterGrammar.lexicalTerminals =
      [⟨.text "a", false⟩, ⟨.text "\n", false⟩] := rfl
  have built : @Lexicon.ofGrammar .ascii letterGrammar =
      ⟨⟨#[⟨[⟨⟨10, 10⟩, ⟨[], some 1⟩⟩, ⟨⟨97, 97⟩, ⟨[], some 2⟩⟩], .nowhere,
            false, none, none⟩,
          ⟨[], .nowhere, true, some 1, none⟩,
          ⟨[], .nowhere, true, some 0, none⟩], 2, 7⟩,
        #[3, 4], #[false, true]⟩ := by
    cbv
  refine ⟨_, rfl, ?_, ?_⟩
  · refine (@tokenizes_tokensWithin .ascii InMemory _ letterGrammar
      CharacterData.surrogatesApart_ascii declared_letterGrammar ?_ true
      [97, 10, 97, 98] ⟨[97, 10, 97, 98]⟩ 10 (by decide)).1
      (InMemory.delivers _) 1
    rw [terminals]
    simp [Pattern.Normal]
  · rw [built]
    decide +kernel

end Scanner

end ParserGenerator
