import ParserGenerator.Proofs.Lexemes
import ParserGenerator.Proofs.Lexical.Spans
import ParserGenerator.Proofs.Scanning

/-!
# The tokens of a cut text

If a text is cut into lexemes from its start to its end, the scanner finds
these lexemes and hands out their tokens. Whether a lexeme is the longest match
follows from the patterns, which can be decided without the automaton.
-/

open ParserGenerator.Stream

namespace ParserGenerator

namespace Lexeme

/-- Lexemes one after the other from an offset on, given by their terminals and
units. -/
def inTurn : (start : Nat) → List (Nat × List CodeUnit) → List Lexeme
  | _, [] => []
  | start, (terminal, units) :: rest =>
      ⟨terminal, start, units⟩ :: inTurn (start + units.length) rest

theorem consecutive_inTurn
    (start : Nat)
    (pieces : List (Nat × List CodeUnit)) :
    Consecutive start (inTurn start pieces)
      (start + (pieces.flatMap Prod.snd).length) := by
  induction pieces generalizing start with
  | nil => exact .nil start
  | cons piece rest inductionHypothesis =>
      obtain ⟨terminal, units⟩ := piece
      rw [List.flatMap_cons, List.length_append, ← Nat.add_assoc]
      exact .cons ⟨terminal, start, units⟩ (inductionHypothesis _)

theorem Consecutive.add_length_le
    {start stop : Nat}
    {lexemes : List Lexeme}
    (consecutive : Consecutive start lexemes stop)
    (nonempty : ∀ lexeme ∈ lexemes, lexeme.units ≠ []) :
    start + lexemes.length ≤ stop := by
  induction consecutive with
  | nil offset => exact Nat.le_refl offset
  | cons lexeme _ inductionHypothesis =>
      obtain ⟨notEmpty, others⟩ := List.forall_mem_cons.mp nonempty
      have positive := List.length_pos_iff.mpr notEmpty
      have later := inductionHypothesis others
      rw [Lexeme.stop] at later
      rw [List.length_cons]
      omega

variable [CharacterData] {grammar : Grammar} {text : List CodeUnit}

/-- What is decided about the patterns is found by the automaton. -/
theorem longest_of_maximalMunch
    (apart : CharacterData.SurrogatesApart)
    (normal : ∀ terminal ∈ grammar.lexicalTerminals, terminal.pattern.Normal)
    {lexeme : Lexeme}
    (nonempty : lexeme.units ≠ [])
    (isPiece : lexeme.units <+: text.drop lexeme.start)
    (munch : Lexical.MaximalMunch grammar.anyCase (text.drop lexeme.start)
      grammar.lexicalTerminals
      (.found lexeme.terminal lexeme.units.length)) :
    lexeme.Longest grammar text where
  nonempty := nonempty
  isPiece := isPiece
  found := (Grammar.maximalMunch_automaton apart normal _).unique munch

end Lexeme

/-- The tokens of some lexemes up to the end of a text. It is known whether
there was a line break since the token before. -/
def Lexicon.tokensOf (lexicon : Lexicon) (stop : Nat) :
    (lineBreak : Bool) → List Lexeme → List Token
  | lineBreak, [] => [⟨Grammar.endSymbol, "", stop, lineBreak⟩]
  | lineBreak, lexeme :: rest =>
      if lexicon.isTrivia lexeme.terminal then
        lexicon.tokensOf stop (lineBreak || lexeme.units.any isLineBreak) rest
      else
        ⟨lexicon.symbol lexeme.terminal, Text.decode lexeme.units, lexeme.start,
          lineBreak⟩ :: lexicon.tokensOf stop false rest

namespace Scanner

variable [CharacterData] {Supply : Type} [Source Supply] {grammar : Grammar}
  {text : List CodeUnit}

/-- From a place in a text on, the tokens are those of the lexemes into which
the rest of the text is cut. -/
theorem tokensWithin_of_consecutive
    {lexemes : List Lexeme}
    {start : Nat}
    (consecutive : Lexeme.Consecutive start lexemes text.length)
    (longest : ∀ lexeme ∈ lexemes, lexeme.Longest grammar text)
    (known : ∀ lexeme ∈ lexemes, (Lexicon.ofGrammar grammar).symbol
      lexeme.terminal ≠ Grammar.endSymbol)
    {window : Window}
    (isPending : window.pending = text.drop start)
    (isPosition : window.position = start)
    (atEnd : window.atEnd = true)
    {fuel : Nat}
    (enough : lexemes.length < fuel)
    (scanner : Scanner)
    (supply : Supply) :
    (tokensWithin (Lexicon.ofGrammar grammar) fuel scanner window
        supply).tokens.map Prod.fst =
      (Lexicon.ofGrammar grammar).tokensOf text.length scanner.lineBreak
        lexemes := by
  generalize isStop : text.length = stop at consecutive
  induction consecutive generalizing window fuel scanner with
  | nil offset =>
      cases fuel with
      | zero => exact absurd enough (Nat.not_lt_zero _)
      | succ fuel =>
          have nothing : window.pending = [] := by
            rw [isPending, ← isStop, List.drop_length]
          have scans : scanner.scan (Lexicon.ofGrammar grammar) window =
              (.token ⟨Grammar.endSymbol, "", offset, scanner.lineBreak⟩,
                scanner.emit, window) := by
            rw [scan, nothing, atEnd, isPosition]
            rfl
          rw [tokensWithin, scans]
          rfl
  | @cons lexeme rest stop _ inductionHypothesis =>
      obtain ⟨isLongest, others⟩ := List.forall_mem_cons.mp longest
      obtain ⟨isKnown, othersKnown⟩ := List.forall_mem_cons.mp known
      obtain ⟨after, isSplit⟩ := isLongest.isPiece
      rw [List.length_cons] at enough
      have nonempty : ¬window.pending.isEmpty = true := by
        rw [isPending, ← isSplit, List.isEmpty_iff, List.append_eq_nil_iff]
        exact fun both => isLongest.nonempty both.1
      have isUnits : window.pending.take lexeme.units.length = lexeme.units := by
        rw [isPending, ← isSplit, List.take_left]
      have found : (Lexicon.ofGrammar grammar).automaton.longestMatch
          window.pending window.atEnd =
            .found lexeme.terminal lexeme.units.length := by
        rw [isPending, atEnd]
        exact isLongest.found
      have nextPending : (window.consume lexeme.units.length).pending =
          text.drop lexeme.stop := by
        rw [Lexeme.stop, ← List.drop_drop, ← isPending]
        rfl
      have nextPosition : (window.consume lexeme.units.length).position =
          lexeme.stop := by
        rw [Window.position_consume, isPosition, Lexeme.stop]
      obtain ⟨fuel, rfl⟩ :=
        Nat.exists_eq_succ_of_ne_zero (Nat.ne_zero_of_lt enough)
      rw [Lexicon.tokensOf]
      by_cases trivia :
          (Lexicon.ofGrammar grammar).isTrivia lexeme.terminal = true
      · have scans := scan_of_trivia scanner nonempty found trivia
          (List.length_pos_iff.mpr isLongest.nonempty)
        have later := inductionHypothesis others othersKnown nextPending
          nextPosition atEnd (Nat.lt_of_succ_lt enough)
          ((scanner.observe window.position lexeme.units).skip lexeme.units)
          isStop
        rw [isUnits] at scans
        rw [if_pos trivia, tokensWithin, scans]
        rwa [tokensWithin] at later
      · have scans := scan_of_token scanner nonempty found trivia
        have later := inductionHypothesis others othersKnown nextPending
          nextPosition atEnd (Nat.lt_of_succ_lt_succ enough)
          (scanner.observe window.position lexeme.units).emit isStop
        rw [isUnits, isPosition] at scans
        rw [isPosition] at later
        rw [if_neg trivia, tokensWithin, scans]
        have notEnd : ((Lexicon.ofGrammar grammar).symbol lexeme.terminal ==
            Grammar.endSymbol) = false := beq_eq_false_iff_ne.mpr isKnown
        simp only [Token.isEnd, notEnd, Bool.false_eq_true, if_false,
          List.map_cons, later]
        rfl

/-- The tokens of a text that is all in the window, if it is cut into pieces
each of which is the longest match of what is left of the text. -/
theorem tokens_of_pieces
    (apart : CharacterData.SurrogatesApart)
    (normal : ∀ terminal ∈ grammar.lexicalTerminals, terminal.pattern.Normal)
    (trackLines : Bool)
    {pieces : List (Nat × List CodeUnit)}
    (isText : pieces.flatMap Prod.snd = text)
    (cut : ∀ lexeme ∈ Lexeme.inTurn 0 pieces,
      lexeme.units ≠ [] ∧ lexeme.units <+: text.drop lexeme.start ∧
        Lexical.MaximalMunch grammar.anyCase (text.drop lexeme.start)
          grammar.lexicalTerminals
          (.found lexeme.terminal lexeme.units.length) ∧
        (Lexicon.ofGrammar grammar).symbol lexeme.terminal ≠
          Grammar.endSymbol) :
    (tokens (Lexicon.ofGrammar grammar) trackLines none text).tokens.map
        Prod.fst =
      (Lexicon.ofGrammar grammar).tokensOf text.length false
        (Lexeme.inTurn 0 pieces) := by
  have consecutive := Lexeme.consecutive_inTurn 0 pieces
  rw [isText, Nat.zero_add] at consecutive
  have few := consecutive.add_length_le fun lexeme member =>
    (cut lexeme member).1
  refine tokensWithin_of_consecutive consecutive ?longest ?known rfl rfl rfl
    (by omega) (start trackLines) (InMemory.mk [])
  case longest =>
    intro lexeme member
    obtain ⟨nonempty, isPiece, munch, -⟩ := cut lexeme member
    exact lexeme.longest_of_maximalMunch apart normal nonempty isPiece munch
  case known =>
    intro lexeme member
    exact (cut lexeme member).2.2.2

end Scanner
end ParserGenerator
