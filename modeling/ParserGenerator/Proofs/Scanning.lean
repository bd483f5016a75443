import ParserGenerator.Proofs.Lexical.Windows
import ParserGenerator.Proofs.Stream.Delivery
import ParserGenerator.Scanner

/-!
# Scanning windows

A scan of a window gives what a scan of the whole of the remaining text gives,
as far as it goes: the same token and the same failure, and where it stops for
more input, a scan of the whole text comes past the same place.
-/

open ParserGenerator.Stream
open ParserGenerator.Lexical.Automaton (length_le_of_longestMatch)

namespace ParserGenerator

/-- A window shows the front part of what another window holds to the end of
the text; `rest` is still to come. -/
structure Stream.Window.Shows (window whole : Window) (rest : List CodeUnit) :
    Prop where
  pending : whole.pending = window.pending ++ rest
  position : whole.position = window.position
  atEnd : whole.atEnd = true
  ended : window.atEnd = true → rest = []

namespace Stream.Window

theorem shows_ofUnits (units : List CodeUnit) :
    (ofUnits units).Shows (ofUnits units) [] where
  pending := (List.append_nil units).symm
  position := rfl
  atEnd := rfl
  ended _ := rfl

theorem shows_ofCapacity (capacity : Nat) (units : List CodeUnit) :
    (ofCapacity capacity).Shows (ofUnits units) units where
  pending := rfl
  position := rfl
  atEnd := rfl
  ended := nofun

end Stream.Window

namespace Stream.Window.Shows

variable {window whole : Window} {rest : List CodeUnit}

theorem consume
    (shows : window.Shows whole rest)
    {count : Nat}
    (available : count ≤ window.pending.length) :
    (window.consume count).Shows (whole.consume count) rest where
  pending := by
    simp only [Window.consume, shows.pending]
    exact List.drop_append_of_le_length available
  position := by
    have position := shows.position
    simp only [Window.position, Window.consume] at position ⊢
    omega
  atEnd := shows.atEnd
  ended := shows.ended

theorem take_pending
    (shows : window.Shows whole rest)
    {count : Nat}
    (available : count ≤ window.pending.length) :
    whole.pending.take count = window.pending.take count := by
  rw [shows.pending, List.take_append_of_le_length available]

/-- A refill with the next piece shows more of the same text. -/
theorem accept
    {piece after : List CodeUnit}
    (shows : window.Shows whole (piece ++ after))
    (last : piece = [] → piece ++ after = []) :
    (window.prepare.accept piece).Shows whole after := by
  have position := shows.position.trans (Window.position_prepare window).symm
  refine ⟨?_, ?_, shows.atEnd, ?_⟩
  · rw [shows.pending]
    cases piece <;> simp [Window.accept]
  · rw [position]
    cases piece <;> simp [Window.accept, Window.position]
  · exact Window.eq_nil_of_atEnd_accept
      (fun ended => shows.ended (by simpa using ended)) last

theorem isEmpty_ne_true
    (shows : window.Shows whole rest)
    (nonempty : ¬window.pending.isEmpty = true) :
    ¬whole.pending.isEmpty = true := by
  rw [shows.pending]
  simp only [List.isEmpty_iff, List.append_eq_nil_iff, not_and] at nonempty ⊢
  intro empty
  exact absurd empty nonempty

variable [CharacterData]

/-- What a window tells about the next lexeme is what the whole text tells. -/
theorem longestMatch_eq
    (shows : window.Shows whole rest)
    (automaton : Lexical.Automaton)
    (known : automaton.longestMatch window.pending window.atEnd ≠ .needMore) :
    automaton.longestMatch whole.pending whole.atEnd =
      automaton.longestMatch window.pending window.atEnd := by
  rw [shows.pending, shows.atEnd]
  cases ended : window.atEnd with
  | true => rw [shows.ended ended, List.append_nil]
  | false =>
      rw [ended] at known
      exact automaton.longestMatch_append window.pending rest true known

end Stream.Window.Shows

namespace Scanner

variable [CharacterData]

/-- A lexeme that would be skipped is empty, so that scanning cannot go on. -/
def Stalls (lexicon : Lexicon) (window : Window) : Prop :=
  window.pending ≠ [] ∧
    ∃ terminal,
      lexicon.automaton.longestMatch window.pending window.atEnd =
          .found terminal 0 ∧
        lexicon.isTrivia terminal = true

theorem scan_of_noMatch
    {lexicon : Lexicon}
    {window : Window}
    (scanner : Scanner)
    (nonempty : ¬window.pending.isEmpty = true)
    (noMatch : lexicon.automaton.longestMatch window.pending window.atEnd =
      .noMatch) :
    scanner.scan lexicon window =
      (.unrecognized (preview window.pending), scanner, window) := by
  rw [scan, if_neg nonempty, noMatch]

theorem scan_of_trivia
    {lexicon : Lexicon}
    {window : Window}
    {terminal length : Nat}
    (scanner : Scanner)
    (nonempty : ¬window.pending.isEmpty = true)
    (found : lexicon.automaton.longestMatch window.pending window.atEnd =
      .found terminal length)
    (trivia : lexicon.isTrivia terminal = true)
    (positive : 0 < length) :
    scanner.scan lexicon window =
      ((scanner.observe window.position (window.pending.take length)).skip
        (window.pending.take length)).scan lexicon (window.consume length) := by
  rw [scan, if_neg nonempty, found]
  simp only [trivia, positive, if_true]

theorem scan_of_stall
    {lexicon : Lexicon}
    {window : Window}
    {terminal : Nat}
    (scanner : Scanner)
    (nonempty : ¬window.pending.isEmpty = true)
    (found : lexicon.automaton.longestMatch window.pending window.atEnd =
      .found terminal 0)
    (trivia : lexicon.isTrivia terminal = true) :
    scanner.scan lexicon window =
      (.needInput, scanner.observe window.position [], window) := by
  rw [scan, if_neg nonempty, found]
  simp [trivia]

theorem scan_of_token
    {lexicon : Lexicon}
    {window : Window}
    {terminal length : Nat}
    (scanner : Scanner)
    (nonempty : ¬window.pending.isEmpty = true)
    (found : lexicon.automaton.longestMatch window.pending window.atEnd =
      .found terminal length)
    (significant : ¬lexicon.isTrivia terminal = true) :
    scanner.scan lexicon window =
      (.token ⟨lexicon.symbol terminal,
          Text.decode (window.pending.take length), window.position,
          scanner.lineBreak⟩,
        (scanner.observe window.position (window.pending.take length)).emit,
        window.consume length) := by
  rw [scan, if_neg nonempty, found]
  simp only [significant]
  rfl

theorem scan_of_stalls
    {lexicon : Lexicon}
    {window : Window}
    (stalls : Stalls lexicon window)
    (scanner : Scanner) :
    ∃ after, scanner.scan lexicon window = (.needInput, after, window) := by
  obtain ⟨pending, terminal, found, trivia⟩ := stalls
  exact ⟨_, scan_of_stall scanner (by simpa using pending) found trivia⟩

/-- More input does not help a scanner that stalls. -/
theorem Stalls.accept
    {lexicon : Lexicon}
    {window : Window}
    {piece : List CodeUnit}
    (stalls : Stalls lexicon window)
    (ended : window.atEnd = true → piece = []) :
    Stalls lexicon (window.prepare.accept piece) := by
  obtain ⟨pending, terminal, found, trivia⟩ := stalls
  cases atEnd : window.atEnd with
  | true =>
      rw [ended atEnd]
      exact ⟨by simpa [Window.accept] using pending, terminal,
        by simpa [Window.accept, atEnd] using found, trivia⟩
  | false =>
      rw [atEnd] at found
      have later := lexicon.automaton.longestMatch_append window.pending piece
        (window.prepare.accept piece).atEnd (by simp [found])
      refine ⟨?_, terminal, ?_, trivia⟩
      · cases piece <;> simp [Window.accept, pending]
      · cases piece with
        | nil => simpa [Window.accept, found] using later
        | cons unit piece => simpa [Window.accept, found] using later

theorem Stalls.shows
    {lexicon : Lexicon}
    {window whole : Window}
    {rest : List CodeUnit}
    (stalls : Stalls lexicon window)
    (shows : window.Shows whole rest) :
    Stalls lexicon whole := by
  obtain ⟨pending, terminal, found, trivia⟩ := stalls
  refine ⟨?_, terminal, ?_, trivia⟩
  · rw [shows.pending]
    exact List.append_ne_nil_of_left_ne_nil pending rest
  · rw [shows.longestMatch_eq lexicon.automaton (by simp [found]), found]

/-- How a scan of a window compares with a scan of the whole text. -/
inductive Foretells (lexicon : Lexicon) (rest : List CodeUnit) :
    Scan × Scanner × Window → Scan × Scanner × Window → Prop
  /-- The same token. -/
  | token
      (token : Token)
      (scanner : Scanner)
      {window whole : Window}
      (shows : window.Shows whole rest) :
      Foretells lexicon rest (.token token, scanner, window)
        (.token token, scanner, whole)
  /-- The same failure. -/
  | unrecognized
      (lexeme wholeLexeme : String)
      (scanner : Scanner)
      {window whole : Window}
      (shows : window.Shows whole rest) :
      Foretells lexicon rest (.unrecognized lexeme, scanner, window)
        (.unrecognized wholeLexeme, scanner, whole)
  /-- A stop on the way that the whole text takes. -/
  | needInput
      (scanner : Scanner)
      {window whole : Window}
      (shows : window.Shows whole rest)
      (open' : window.atEnd = false) :
      Foretells lexicon rest (.needInput, scanner, window)
        (scanner.scan lexicon whole)
  /-- A stop for good. -/
  | stalls
      (scanner : Scanner)
      {window whole : Window}
      (shows : window.Shows whole rest)
      (stalls : Stalls lexicon window) :
      Foretells lexicon rest (.needInput, scanner, window)
        (.needInput, scanner, whole)

/-- A scan of a window foretells the scan of the whole text. -/
theorem scan_foretells
    (lexicon : Lexicon)
    (scanner : Scanner)
    {window whole : Window}
    {rest : List CodeUnit}
    (shows : window.Shows whole rest) :
    Foretells lexicon rest (scanner.scan lexicon window)
      (scanner.scan lexicon whole) := by
  revert whole
  fun_induction scan lexicon scanner window
  case case1 scanner window empty ended =>
      intro whole shows
      have nothing : window.pending = [] := by simpa using empty
      have wholeNothing : whole.pending = [] := by
        rw [shows.pending, nothing, shows.ended ended, List.append_nil]
      rw [scan, if_pos (by simp [wholeNothing]), if_pos shows.atEnd,
        shows.position]
      exact .token _ _ shows
  case case2 scanner window empty open' =>
      intro whole shows
      exact .needInput scanner shows (by simpa using open')
  case case3 scanner window nonempty needMore =>
      intro whole shows
      refine .needInput scanner shows ?_
      cases ended : window.atEnd with
      | false => rfl
      | true =>
          rw [ended] at needMore
          exact absurd needMore
            (lexicon.automaton.longestMatch_atEnd_ne_needMore window.pending)
  case case4 scanner window nonempty noMatch =>
      intro whole shows
      have same := shows.longestMatch_eq lexicon.automaton (by simp [noMatch])
      rw [scan_of_noMatch scanner (shows.isEmpty_ne_true nonempty)
        (same.trans noMatch)]
      exact .unrecognized _ _ scanner shows
  case case5 scanner window nonempty terminal length found units position observed
      trivia positive inductionHypothesis =>
      intro whole shows
      have available := length_le_of_longestMatch found
      have same := shows.longestMatch_eq lexicon.automaton (by simp [found])
      rw [scan_of_trivia scanner (shows.isEmpty_ne_true nonempty)
          (same.trans found) trivia positive,
        shows.take_pending available, shows.position]
      exact inductionHypothesis (shows.consume available)
  case case6 scanner window nonempty terminal length found units position observed
      trivia zero =>
      intro whole shows
      have empty : length = 0 := by omega
      subst empty
      have same := shows.longestMatch_eq lexicon.automaton (by simp [found])
      rw [scan_of_stall scanner (shows.isEmpty_ne_true nonempty)
          (same.trans found) trivia,
        shows.position]
      exact .stalls _ shows ⟨by simpa using nonempty, terminal, found, trivia⟩
  case case7 scanner window nonempty terminal length found units position observed
      significant =>
      intro whole shows
      have available := length_le_of_longestMatch found
      have same := shows.longestMatch_eq lexicon.automaton (by simp [found])
      rw [scan_of_token scanner (shows.isEmpty_ne_true nonempty)
          (same.trans found) significant,
        shows.take_pending available, shows.position]
      exact .token _ _ (shows.consume available)

/-- Scanning keeps a window sound. -/
theorem sound_scan
    (lexicon : Lexicon)
    (scanner : Scanner)
    {window : Window}
    (sound : window.Sound) :
    (scanner.scan lexicon window).2.2.Sound := by
  fun_induction scan lexicon scanner window with
  | case1 scanner window empty ended => exact sound
  | case2 scanner window empty open' => exact sound
  | case3 scanner window nonempty needMore => exact sound
  | case4 scanner window nonempty noMatch => exact sound
  | case5 scanner window nonempty terminal length found units position
      observed trivia positive inductionHypothesis =>
      exact inductionHypothesis
        (sound.consume (length_le_of_longestMatch found))
  | case6 scanner window nonempty terminal length found units position
      observed trivia zero =>
      exact sound
  | case7 scanner window nonempty terminal length found units position
      observed significant =>
      exact sound.consume (length_le_of_longestMatch found)

/-- Scanning does not find the end of a stream. -/
theorem atEnd_scan
    (lexicon : Lexicon)
    (scanner : Scanner)
    (window : Window) :
    (scanner.scan lexicon window).2.2.atEnd = window.atEnd := by
  fun_induction scan lexicon scanner window with
  | case5 scanner window nonempty terminal length found units position observed
      trivia positive inductionHypothesis =>
      exact inductionHypothesis
  | _ => rfl

end Scanner
end ParserGenerator
