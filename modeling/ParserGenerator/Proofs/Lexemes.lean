import ParserGenerator.Proofs.Grammar.Terminals
import ParserGenerator.Proofs.Lexical.Characters
import ParserGenerator.Proofs.Lexical.Munch
import ParserGenerator.Token

/-!
# Lexemes and tokens

What the tokens of a text are. A part of the text is cut into lexemes that lie
one after the other, each the longest match of what is left of the text at its
start. The tokens are the lexemes that are not skipped, with their symbols,
offsets and texts, and know whether there is a line break since the token
before. A lexeme is never empty, since no declared terminal is nullable, and
its text loses nothing, since terminals match whole characters.
-/

namespace ParserGenerator

/-! ## Lexemes -/

/-- A piece of a text and the terminal that it matches. -/
structure Lexeme where
  /-- The number of the terminal in the automaton. -/
  terminal : Nat
  /-- The offset of the first unit. -/
  start : Nat
  /-- The units of the piece. -/
  units : List CodeUnit

namespace Lexeme

/-- The offset after the last unit. -/
def stop (lexeme : Lexeme) : Nat := lexeme.start + lexeme.units.length

/-- Lexemes that lie one after the other between two offsets. -/
inductive Consecutive : Nat → List Lexeme → Nat → Prop
  | nil (offset : Nat) : Consecutive offset [] offset
  | cons
      (lexeme : Lexeme)
      {rest : List Lexeme}
      {stop : Nat}
      (others : Consecutive lexeme.stop rest stop) :
      Consecutive lexeme.start (lexeme :: rest) stop

theorem Consecutive.append
    {start middle stop : Nat}
    {lexemes others : List Lexeme}
    (first : Consecutive start lexemes middle)
    (second : Consecutive middle others stop) :
    Consecutive start (lexemes ++ others) stop := by
  induction first with
  | nil => exact second
  | cons lexeme _ inductionHypothesis =>
      exact .cons lexeme (inductionHypothesis second)

theorem Consecutive.le
    {start stop : Nat}
    {lexemes : List Lexeme}
    (consecutive : Consecutive start lexemes stop) :
    start ≤ stop := by
  induction consecutive with
  | nil => exact Nat.le_refl _
  | cons lexeme _ inductionHypothesis =>
      exact Nat.le_trans (Nat.le_add_right _ _) inductionHypothesis

/-- The lexeme is a piece of the text, not empty, and the longest match of what
is left of the text at its start. -/
structure Longest [CharacterData] (grammar : Grammar) (text : List CodeUnit)
    (lexeme : Lexeme) : Prop where
  nonempty : lexeme.units ≠ []
  isPiece : lexeme.units <+: text.drop lexeme.start
  found : grammar.automaton.longestMatch (text.drop lexeme.start) true =
    .found lexeme.terminal lexeme.units.length

/-- Lexemes that lie one after the other make up their part of the text. -/
theorem Consecutive.flatMap_units
    [CharacterData]
    {grammar : Grammar}
    {text : List CodeUnit}
    {start stop : Nat}
    {lexemes : List Lexeme}
    (consecutive : Consecutive start lexemes stop)
    (longest : ∀ lexeme ∈ lexemes, lexeme.Longest grammar text) :
    text.drop start = lexemes.flatMap units ++ text.drop stop := by
  induction consecutive with
  | nil => rfl
  | cons lexeme _ inductionHypothesis =>
      obtain ⟨isLongest, others⟩ := List.forall_mem_cons.mp longest
      obtain ⟨left, isPiece⟩ := isLongest.isPiece
      have rest : text.drop lexeme.stop = left := by
        rw [Lexeme.stop, ← List.drop_drop, ← isPiece, List.drop_left]
      rw [List.flatMap_cons, List.append_assoc, ← inductionHypothesis others,
        rest, isPiece]

end Lexeme

/-! ## Tokens -/

/-- There is a line break between two offsets. -/
def LineBreakBetween (text : List CodeUnit) (first last : Nat) : Prop :=
  ∃ unit ∈ (text.take last).drop first,
    unit = 0x000A ∨ unit = 0x000D ∨ unit = 0x2028 ∨ unit = 0x2029

/-- The token of a lexeme, where `previous` is the end of the token before. -/
structure Token.Denotes (grammar : Grammar) (text : List CodeUnit)
    (previous : Nat) (lexeme : Lexeme) (token : Token) : Prop where
  isSymbol : ∃ pattern options,
    grammar.Numbers lexeme.terminal token.symbol pattern options ∧
      options.isTrivia = false
  notEnd : token.isEnd = false
  position : token.position = lexeme.start
  encodes : Text.encode token.text = lexeme.units
  lineBreakBefore : token.lineBreakBefore = true ↔
    LineBreakBetween text previous lexeme.start

/-- The token of the end of a text, where `previous` is the end of the token
before. -/
structure Token.DenotesEnd (text : List CodeUnit) (previous : Nat)
    (token : Token) : Prop where
  isEnd : token.isEnd = true
  position : token.position = text.length
  isEmpty : token.text = ""
  lineBreakBefore : token.lineBreakBefore = true ↔
    LineBreakBetween text previous text.length

/-- Tokens are those of the lexemes that are not skipped. The token before them
ends at `previous`, and the last one of all at `last`. -/
inductive Lexeme.Handed (grammar : Grammar) (text : List CodeUnit) :
    Nat → List Lexeme → List Token → Nat → Prop
  | nil (previous : Nat) : Handed grammar text previous [] [] previous
  | trivia
      {previous last : Nat}
      {lexeme : Lexeme}
      {lexemes : List Lexeme}
      {tokens : List Token}
      (skipped : ∃ symbol pattern options,
        grammar.Numbers lexeme.terminal symbol pattern options ∧
          options.isTrivia = true)
      (others : Handed grammar text previous lexemes tokens last) :
      Handed grammar text previous (lexeme :: lexemes) tokens last
  | token
      {previous last : Nat}
      {lexeme : Lexeme}
      {lexemes : List Lexeme}
      {token : Token}
      {tokens : List Token}
      (denotes : token.Denotes grammar text previous lexeme)
      (others : Handed grammar text lexeme.stop lexemes tokens last) :
      Handed grammar text previous (lexeme :: lexemes) (token :: tokens) last

theorem Lexeme.Handed.append
    {grammar : Grammar}
    {text : List CodeUnit}
    {previous middle last : Nat}
    {lexemes moreLexemes : List Lexeme}
    {tokens moreTokens : List Token}
    (first : Handed grammar text previous lexemes tokens middle)
    (second : Handed grammar text middle moreLexemes moreTokens last) :
    Handed grammar text previous (lexemes ++ moreLexemes)
      (tokens ++ moreTokens) last := by
  induction first with
  | nil => exact second
  | trivia skipped _ inductionHypothesis =>
      exact .trivia skipped (inductionHypothesis second)
  | token denotes _ inductionHypothesis =>
      exact .token denotes (inductionHypothesis second)

/-- A part of a text is cut into lexemes and tokens. -/
structure Cuts [CharacterData] (grammar : Grammar) (text : List CodeUnit)
    (previous start : Nat) (lexemes : List Lexeme) (tokens : List Token)
    (last stop : Nat) : Prop where
  consecutive : Lexeme.Consecutive start lexemes stop
  longest : ∀ lexeme ∈ lexemes, lexeme.Longest grammar text
  handed : Lexeme.Handed grammar text previous lexemes tokens last

namespace Cuts

variable [CharacterData] {grammar : Grammar} {text : List CodeUnit}

theorem nil (previous offset : Nat) :
    Cuts grammar text previous offset [] [] previous offset :=
  ⟨.nil offset, fun _ impossible => absurd impossible List.not_mem_nil,
    .nil previous⟩

theorem trivia
    {lexeme : Lexeme}
    (previous : Nat)
    (isLongest : lexeme.Longest grammar text)
    (skipped : ∃ symbol pattern options,
      grammar.Numbers lexeme.terminal symbol pattern options ∧
        options.isTrivia = true) :
    Cuts grammar text previous lexeme.start [lexeme] [] previous lexeme.stop :=
  ⟨.cons lexeme (.nil _), List.forall_mem_singleton.mpr isLongest,
    .trivia skipped (.nil previous)⟩

theorem token
    {previous : Nat}
    {lexeme : Lexeme}
    {token : Token}
    (isLongest : lexeme.Longest grammar text)
    (denotes : token.Denotes grammar text previous lexeme) :
    Cuts grammar text previous lexeme.start [lexeme] [token] lexeme.stop
      lexeme.stop :=
  ⟨.cons lexeme (.nil _), List.forall_mem_singleton.mpr isLongest,
    .token denotes (.nil _)⟩

theorem append
    {previous start between middle last stop : Nat}
    {lexemes moreLexemes : List Lexeme}
    {tokens moreTokens : List Token}
    (first : Cuts grammar text previous start lexemes tokens between middle)
    (second : Cuts grammar text between middle moreLexemes moreTokens last
      stop) :
    Cuts grammar text previous start (lexemes ++ moreLexemes)
      (tokens ++ moreTokens) last stop :=
  ⟨first.consecutive.append second.consecutive,
    List.forall_mem_append.mpr ⟨first.longest, second.longest⟩,
    first.handed.append second.handed⟩

end Cuts

/-! ## The matches of a grammar -/

namespace Grammar

variable [CharacterData] {grammar : Grammar} {input : List CodeUnit}

theorem maximalMunch_automaton
    (apart : CharacterData.SurrogatesApart)
    (normal : ∀ terminal ∈ grammar.lexicalTerminals, terminal.pattern.Normal)
    (input : List CodeUnit) :
    Lexical.MaximalMunch grammar.anyCase input grammar.lexicalTerminals
      (grammar.automaton.longestMatch input true) :=
  Lexical.Automaton.maximalMunch_build apart normal grammar.anyCase input

/-- A terminal that is found has at least one unit, is declared, and matches
the text of characters. -/
theorem numbers_of_found
    (apart : CharacterData.SurrogatesApart)
    (declared : grammar.Declared)
    (normal : ∀ terminal ∈ grammar.lexicalTerminals, terminal.pattern.Normal)
    {terminal length : Nat}
    (found : grammar.automaton.longestMatch input true =
      .found terminal length) :
    0 < length ∧
      (∃ symbol pattern options,
        grammar.Numbers terminal symbol pattern options) ∧
      Text.encode (Text.decode (input.take length)) = input.take length := by
  have munch := maximalMunch_automaton apart normal input
  rw [found] at munch
  obtain ⟨⟨entry, isTerminal, ⟨-, isMatch⟩, -⟩, -⟩ := munch
  obtain ⟨symbol, options, numbers⟩ := exists_numbers isTerminal
  obtain ⟨points, starts, allowed⟩ := Pattern.consumes_of_matches isMatch
  have isFront : input.take length = points.flatMap Text.encodePoint := by
    have split := starts.units
    nth_rewrite 1 [← List.take_append_drop length input] at split
    exact List.append_cancel_right split
  refine ⟨Nat.pos_of_ne_zero ?_, ⟨symbol, _, options, numbers⟩, ?_⟩
  · rintro rfl
    rw [declared.noneNullable entry (List.mem_of_getElem? isTerminal)]
      at allowed
    cases points with
    | nil => exact Bool.noConfusion (allowed rfl)
    | cons point rest =>
        have nothing := (List.append_eq_nil_iff.mp isFront.symm).1
        exact Text.encodePoint_ne_nil point nothing
  · rw [isFront, Text.encode_decode starts.scalars]

/-- Where nothing is found, no terminal matches. -/
theorem not_spans_of_noMatch
    (apart : CharacterData.SurrogatesApart)
    (normal : ∀ terminal ∈ grammar.lexicalTerminals, terminal.pattern.Normal)
    (noMatch : grammar.automaton.longestMatch input true = .noMatch)
    {terminal : Lexical.Terminal}
    (member : terminal ∈ grammar.lexicalTerminals)
    (length : Nat) :
    ¬Lexical.Spans grammar.anyCase input terminal.pattern length := by
  have munch := maximalMunch_automaton apart normal input
  rw [noMatch] at munch
  intro spans
  obtain ⟨index, isTerminal⟩ := List.mem_iff_getElem?.mp member
  -- The least length is contributed whether the terminal is lazy or not.
  classical
  have some : ∃ length,
    Lexical.Spans grammar.anyCase input terminal.pattern length :=
      ⟨length, spans⟩
  exact munch index (Nat.find some) ⟨terminal, isTerminal, Nat.find_spec some,
    fun _ _ shorter => Nat.find_min some shorter⟩

end Grammar

end ParserGenerator
