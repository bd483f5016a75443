import Mathlib
import ParserGenerator.Proofs.Definition.Sections
import ParserGenerator.Proofs.Definition.Source
import ParserGenerator.Proofs.Grammar.Declaring

/-!
# Reading the terminal section

A line that declares a terminal is read as its name, its flags and its pattern.
The lines of a section give all terminals in order, each with its options, and
say whether letters match in either case.
-/

namespace ParserGenerator
namespace Definition

/-! ## Letters and gaps -/

theorem isLower_iff {letter : Char} :
    isLower letter = true ↔ 0x61 ≤ letter.toNat ∧ letter.toNat ≤ 0x7A := by
  rw [isLower, Bool.and_eq_true, decide_eq_true_eq, decide_eq_true_eq]
  exact Iff.rfl

theorem isUpper_iff {letter : Char} :
    isUpper letter = true ↔ 0x41 ≤ letter.toNat ∧ letter.toNat ≤ 0x5A := by
  rw [isUpper, Bool.and_eq_true, decide_eq_true_eq, decide_eq_true_eq]
  exact Iff.rfl

theorem isWordLetter_iff {letter : Char} :
    isWordLetter letter = true ↔
      0x30 ≤ letter.toNat ∧ letter.toNat ≤ 0x39 ∨
        0x41 ≤ letter.toNat ∧ letter.toNat ≤ 0x5A ∨
          letter.toNat = 0x5F ∨
            0x61 ≤ letter.toNat ∧ letter.toNat ≤ 0x7A := by
  have isDigit : '0' ≤ letter ∧ letter ≤ '9' ↔
      0x30 ≤ letter.toNat ∧ letter.toNat ≤ 0x39 := Iff.rfl
  have isUnderscore : letter = '_' ↔ letter.toNat = 0x5F := by
    rw [← Char.toNat_inj]
    rfl
  rw [isWordLetter, Bool.or_eq_true, Bool.or_eq_true, Bool.or_eq_true,
    isLower_iff, isUpper_iff, Bool.and_eq_true, decide_eq_true_eq,
    decide_eq_true_eq, isDigit, beq_iff_eq, isUnderscore]
  omega

theorem isBlank_of_isWordLetter
    {letter : Char}
    (inWord : isWordLetter letter = true) :
    Text.isBlank letter = false := by
  rw [isWordLetter_iff] at inWord
  simp only [Text.isBlank, Bool.or_eq_false_iff, Bool.and_eq_false_iff,
    decide_eq_false_iff_not, beq_eq_false_iff_ne, ne_eq]
  omega

theorem isWordLetter_of_isLower
    {letter : Char}
    (lower : isLower letter = true) :
    isWordLetter letter = true := by
  simp [isWordLetter, lower]

theorem isWordLetter_of_isUpper
    {letter : Char}
    (upper : isUpper letter = true) :
    isWordLetter letter = true := by
  simp [isWordLetter, upper]

theorem isBlank_of_isSpace
    {character : Char}
    (space : isSpace character = true) :
    Text.isBlank character = true := by
  simp only [isSpace, Bool.or_eq_true, beq_iff_eq] at space
  rcases space with ((rfl | rfl) | rfl) | rfl <;> decide

theorem isWordLetter_of_isSpace
    {character : Char}
    (space : isSpace character = true) :
    isWordLetter character = false := by
  simp only [isSpace, Bool.or_eq_true, beq_iff_eq] at space
  rcases space with ((rfl | rfl) | rfl) | rfl <;> decide

theorem IsGap.blank
    {gap : List Char}
    (isGap : IsGap gap) :
    ∀ character ∈ gap, Text.isBlank character = true :=
  fun character member => isBlank_of_isSpace (isGap character member)

/-- Only the four characters that divide words occur in a gap. -/
theorem IsGap.notMem
    {gap : List Char}
    (isGap : IsGap gap)
    {character : Char}
    (notSpace : isSpace character = false) :
    character ∉ gap := by
  intro member
  rw [isGap character member] at notSpace
  contradiction

theorem IsWord.letters
    {isStart isLetter : Char → Bool}
    {word : List Char}
    (isWord : IsWord isStart isLetter word)
    (startIsLetter : ∀ {letter}, isStart letter = true →
      isLetter letter = true) :
    ∀ letter ∈ word, isLetter letter = true := by
  obtain ⟨first, letters, rfl, starts, rest⟩ := isWord
  exact List.forall_mem_cons.mpr ⟨startIsLetter starts, rest⟩

/-! ## Padded lines -/

theorem Padded.trimmed
    {content line : List Char}
    (padded : Padded content line)
    (tight : Text.Tight content) :
    Text.trimmed line = content := by
  obtain ⟨isGapBefore, isGapAfter⟩ := padded
  exact Text.trimmed_padded isGapBefore.blank isGapAfter.blank tight

theorem Padded.notMem
    {content line : List Char}
    {character : Char}
    (padded : Padded content line)
    (notSpace : isSpace character = false)
    (absent : character ∉ content) :
    character ∉ line := by
  obtain ⟨isGapBefore, isGapAfter⟩ := padded
  simp only [List.mem_append, not_or]
  exact ⟨isGapBefore.notMem notSpace, absent, isGapAfter.notMem notSpace⟩

theorem Filler.notMem_lineFeed
    {line : List Char}
    (isFiller : Filler line) :
    '\n' ∉ line := by
  cases isFiller with
  | blank isGap => exact isGap.notMem (by decide)
  | comment isGap oneLine =>
      simp only [List.mem_append, List.mem_cons, not_or]
      exact ⟨isGap.notMem (by decide), by decide, by decide, oneLine⟩

/-- Without surrounding white space a filler is empty or starts with two
hyphens. -/
theorem Filler.trimmed
    {line : List Char}
    (isFiller : Filler line) :
    Text.trimmed line = [] ∨
      ∃ rest, Text.trimmed line = '-' :: '-' :: rest := by
  cases isFiller with
  | blank isGap =>
      refine .inl ?_
      rw [Text.trimmed, List.dropWhile_eq_nil_iff.mpr isGap.blank]
      rfl
  | @comment gap text isGap _ =>
      refine .inr ⟨Text.dropBlankEnd text, ?_⟩
      have hyphens : ∀ character ∈ ['-', '-'].getLast?,
          Text.isBlank character = false := by
        simp [Text.isBlank]
      rw [Text.trimmed, Text.dropWhile_isBlank_append isGap.blank
        (by simp [Text.isBlank])]
      exact Text.dropBlankEnd_append hyphens text

/-! ## Names and flags -/

/-- Letters end at the first character that is none. -/
theorem span_letters
    {isLetter : Char → Bool}
    {letters rest : List Char}
    (isLetters : ∀ letter ∈ letters, isLetter letter = true)
    (stops : ∀ character ∈ rest.head?, isLetter character = false) :
    (letters ++ rest).takeWhile isLetter = letters ∧
      (letters ++ rest).dropWhile isLetter = rest := by
  rw [List.takeWhile_append_of_pos isLetters,
    List.dropWhile_append_of_pos isLetters]
  cases rest with
  | nil => simp
  | cons character rest =>
      have notLetter := stops character rfl
      simp [notLetter]

/-- A word is taken up to the first character that does not belong to it. -/
theorem takeName_append
    {isStart isLetter : Char → Bool}
    {word rest : List Char}
    (isWord : IsWord isStart isLetter word)
    (stops : ∀ character ∈ rest.head?, isLetter character = false) :
    takeName isStart isLetter (word ++ rest) = some (word, rest) := by
  obtain ⟨first, letters, rfl, starts, isLetters⟩ := isWord
  obtain ⟨taken, left⟩ := span_letters isLetters stops
  rw [List.cons_append, takeName, if_pos starts, taken, left]

theorem readFlags_eq
    {flags : List String}
    (known : ∀ flag ∈ flags, flag = "lazy" ∨ flag = "skip")
    (number : Nat)
    (options : TerminalOptions) :
    readFlags number options flags =
      .ok ⟨options.isLazy || decide ("lazy" ∈ flags),
        options.isTrivia || decide ("skip" ∈ flags)⟩ := by
  induction flags generalizing options with
  | nil => simp [readFlags]
  | cons flag rest inductionHypothesis =>
      obtain ⟨isKnown, others⟩ := List.forall_mem_cons.mp known
      rcases isKnown with rfl | rfl
      · rw [readFlags, inductionHypothesis others]
        simp
      · rw [readFlags, inductionHypothesis others]
        simp

theorem tight_of_isFlag
    {flag : String}
    (isFlag : flag = "lazy" ∨ flag = "skip") :
    Text.Tight flag.toList := by
  rcases isFlag with rfl | rfl <;>
    exact ⟨by simp [Text.isBlank], by simp [Text.isBlank]⟩

/-- Neither marks nor line feeds are written within flags. -/
theorem notMem_flags
    {flags : List String}
    {parts : List (List Char)}
    (known : ∀ flag ∈ flags, flag = "lazy" ∨ flag = "skip")
    (written : List.Forall₂ (fun flag part => Padded flag.toList part)
      flags parts) :
    ∀ part ∈ parts, ',' ∉ part ∧ '>' ∉ part ∧ '\n' ∉ part := by
  induction written with
  | nil => simp
  | @cons flag part _ _ padded _ inductionHypothesis =>
      obtain ⟨isFlag, others⟩ := List.forall_mem_cons.mp known
      have absent {character : Char}
          (notSpace : isSpace character = false)
          (notInFlags : character ∉ "lazy".toList ++ "skip".toList) :
          character ∉ part := by
        refine padded.notMem notSpace fun member => notInFlags ?_
        rcases isFlag with rfl | rfl
        · exact List.mem_append_left _ member
        · exact List.mem_append_right _ member
      refine List.forall_mem_cons.mpr ⟨⟨?_, ?_, ?_⟩, inductionHypothesis others⟩
      · exact absent (by decide) (by simp)
      · exact absent (by decide) (by simp)
      · exact absent (by decide) (by simp)

theorem notMem_intercalate
    {character separator : Char}
    {parts : List (List Char)}
    (other : character ≠ separator)
    (absent : ∀ part ∈ parts, character ∉ part) :
    character ∉ [separator].intercalate parts := by
  induction parts with
  | nil => simp
  | cons part rest inductionHypothesis =>
      obtain ⟨absentHere, absentThere⟩ := List.forall_mem_cons.mp absent
      cases rest with
      | nil =>
          rw [List.intercalate_singleton]
          exact absentHere
      | cons next rest =>
          rw [List.intercalate_cons_cons]
          simp only [List.mem_append, List.mem_singleton, not_or]
          exact ⟨⟨absentHere, other⟩, inductionHypothesis absentThere⟩

/-- The flags between brackets are found again. -/
theorem flagNames_intercalate
    {flags : List String}
    {parts : List (List Char)}
    (nonempty : flags ≠ [])
    (known : ∀ flag ∈ flags, flag = "lazy" ∨ flag = "skip")
    (written : List.Forall₂ (fun flag part => Padded flag.toList part)
      flags parts) :
    flagNames (some ([','].intercalate parts)) = flags := by
  have somePart : parts ≠ [] := by
    rintro rfl
    exact nonempty (List.forall₂_nil_right_iff.mp written)
  rw [flagNames, Text.splitAt_intercalate somePart fun part member =>
    (notMem_flags known written part member).1]
  clear somePart nonempty
  induction written with
  | nil => rfl
  | @cons flag part _ _ padded _ inductionHypothesis =>
      obtain ⟨isFlag, others⟩ := List.forall_mem_cons.mp known
      rw [List.map_cons, padded.trimmed (tight_of_isFlag isFlag),
        String.ofList_toList, inductionHypothesis others]

theorem WritesFlags.head
    {options : TerminalOptions}
    {flags : List Char}
    (writes : WritesFlags options flags) :
    flags = [] ∨ ∃ rest, flags = '<' :: rest := by
  cases writes with
  | none => exact .inl rfl
  | some => exact .inr ⟨_, rfl⟩

theorem skipBlanks_append
    {gap rest : List Char}
    (isGap : IsGap gap)
    (notBlank : ∀ character ∈ rest.head?, Text.isBlank character = false) :
    skipBlanks (gap ++ rest) = rest :=
  Text.dropWhile_isBlank_append isGap.blank notBlank

/-- Flags and pattern are told apart, and the flags stand for the options. -/
theorem splitFlags_append
    {options : TerminalOptions}
    {flags text : List Char}
    (writes : WritesFlags options flags)
    (nonempty : text ≠ [])
    (notBlank : ∀ character ∈ text.head?, Text.isBlank character = false)
    (noFlags : text.head? ≠ some '<')
    (number : Nat) :
    ∃ names, splitFlags (flags ++ text) = (names, text) ∧
      readFlags number ⟨false, false⟩ (flagNames names) = .ok options := by
  cases writes with
  | none =>
      refine ⟨none, ?_, rfl⟩
      rw [List.nil_append, splitFlags]
      rintro rest rfl
      exact noFlags rfl
  | @some flags parts gap someFlag known written isGap =>
      have closed : ∀ character ∈ [','].intercalate parts,
          (character != '>') = true := by
        have absent : '>' ∉ [','].intercalate parts :=
          notMem_intercalate (by decide) fun part member =>
            (notMem_flags known written part member).2.1
        intro character member
        rw [bne_iff_ne]
        rintro rfl
        exact absent member
      refine ⟨some ([','].intercalate parts), ?_, ?_⟩
      · have after : skipBlanks (gap ++ text) = text :=
          skipBlanks_append isGap notBlank
        have notEmpty : text.isEmpty = false := by
          simpa using nonempty
        simp only [List.cons_append, List.append_assoc, splitFlags,
          List.dropWhile_append_of_pos closed,
          List.takeWhile_append_of_pos closed]
        simp [after, notEmpty]
      · rw [flagNames_intercalate someFlag known written,
          readFlags_eq known]
        simp

/-! ## Patterns without shorthands -/

/-- What is taken as a name is a word at the front. -/
theorem word_of_takeName
    {isStart isLetter : Char → Bool}
    {characters word rest : List Char}
    (taken : takeName isStart isLetter characters = some (word, rest)) :
    IsWord isStart isLetter word ∧ characters = word ++ rest := by
  cases characters with
  | nil => contradiction
  | cons first others =>
      rw [takeName] at taken
      split at taken
      · next starts =>
          obtain ⟨rfl, rfl⟩ := Prod.mk.inj (Option.some.inj taken)
          refine ⟨⟨first, _, rfl, starts, fun _ member =>
            List.mem_takeWhile_imp member⟩, ?_⟩
          rw [List.cons_append, List.takeWhile_append_dropWhile]
      · contradiction

/-- The name of a shorthand in double braces, with any white space around it. -/
inductive SpellsReference (name : String) : List Char → Prop
  | braces
      {gap otherGap : List Char}
      (blankBefore : ∀ character ∈ gap, Text.isBlank character = true)
      (isName : IsWord isShorthandStart isShorthandLetter name.toList)
      (blankAfter : ∀ character ∈ otherGap, Text.isBlank character = true) :
      SpellsReference name ('\x7b' :: '\x7b' ::
        (gap ++ (name.toList ++ (otherGap ++ ['\x7d', '\x7d']))))

/-- What is found at the front is a reference and what follows it. -/
theorem exists_spelling_of_reference?
    {characters rest : List Char}
    {name : String}
    (isReference : reference? characters = some (name, rest)) :
    ∃ spelling, SpellsReference name spelling ∧
      characters = spelling ++ rest := by
  unfold reference? at isReference
  split at isReference
  · next inside =>
      obtain ⟨⟨word, after⟩, isName, closes⟩ :=
        Option.bind_eq_some_iff.mp isReference
      obtain ⟨isWord, split⟩ := word_of_takeName isName
      dsimp only at closes
      split at closes
      · next beyond atBraces =>
          obtain ⟨rfl, rfl⟩ := Prod.mk.inj (Option.some.inj closes)
          have splitAfter : after = after.takeWhile Text.isBlank ++
              ('\x7d' :: '\x7d' :: beyond) := by
            rw [← atBraces, skipBlanks, List.takeWhile_append_dropWhile]
          have splitInside : inside = inside.takeWhile Text.isBlank ++
              (word ++ after) := by
            rw [← split, skipBlanks, List.takeWhile_append_dropWhile]
          refine ⟨_, @SpellsReference.braces _
            (inside.takeWhile Text.isBlank) (after.takeWhile Text.isBlank)
            (fun _ member => List.mem_takeWhile_imp member)
            (by rwa [String.toList_ofList])
            (fun _ member => List.mem_takeWhile_imp member), ?_⟩
          conv_lhs => rw [splitInside, splitAfter]
          simp
      · contradiction
  · contradiction

theorem refersToShorthand_of_reference?
    {characters rest : List Char}
    {name : String}
    (isReference : reference? characters = some (name, rest)) :
    RefersToShorthand characters := by
  obtain ⟨spelling, spells, rfl⟩ := exists_spelling_of_reference? isReference
  obtain @⟨gap, otherGap, blankBefore, isName, blankAfter⟩ := spells
  exact ⟨[], gap, name.toList, otherGap, rest, by simp, blankBefore, isName,
    blankAfter⟩

theorem pieces_eq_map
    {characters : List Char}
    (noShorthand : ¬ RefersToShorthand characters)
    (fuel : Nat) :
    pieces fuel characters = (characters.take fuel).map Piece.character := by
  induction fuel generalizing characters with
  | zero => rw [pieces, List.take_zero, List.map_nil]
  | succ fuel inductionHypothesis =>
      cases characters with
      | nil => rfl
      | cons character rest =>
          have noReference : reference? (character :: rest) = none := by
            cases isReference : reference? (character :: rest) with
            | none => rfl
            | some found =>
                exact absurd (refersToShorthand_of_reference? isReference)
                  noShorthand
          have noneLater : ¬ RefersToShorthand rest := by
            rintro ⟨before, gap, name, otherGap, after, split, isGap, isName,
              isOtherGap⟩
            refine noShorthand ⟨character :: before, gap, name, otherGap, after,
              ?_, isGap, isName, isOtherGap⟩
            rw [split]
            simp
          rw [pieces, noReference, List.take_succ_cons, List.map_cons,
            inductionHypothesis noneLater]

/-- A pattern without shorthands stands for itself. -/
theorem expand_eq_self
    {characters : List Char}
    {fuel : Nat}
    (noShorthand : ¬ RefersToShorthand characters)
    (someFuel : fuel ≠ 0)
    (shorthands : List (String × List Char))
    (input : List Char) :
    expand shorthands input fuel characters = .ok characters := by
  obtain ⟨fuel, rfl⟩ := Nat.exists_eq_succ_of_ne_zero someFuel
  have noNames : references (pieces characters.length characters) = [] := by
    rw [pieces_eq_map noShorthand, references]
    simp
  rw [expand]
  simp [noNames]

/-! ## Lines -/

section Lines

variable [CharacterData] {terminal : TerminalSource} {line : List Char}

theorem parse_empty : Pattern.parse "" = .ok (.concat []) := by
  cbv

/-- The text of a terminal that is not nullable has a first character. -/
theorem TerminalSource.Proper.text_ne_nil
    (proper : terminal.Proper) :
    terminal.text.toList ≠ [] := by
  intro noText
  have parsed := proper.parsed
  rw [String.toList_eq_nil_iff.mp noText, parse_empty] at parsed
  have notNullable := proper.notNullable
  rw [← Except.ok.inj parsed] at notNullable
  simp [Pattern.isNullable, Pattern.allNullable] at notNullable

theorem TerminalSource.Proper.tight
    (proper : terminal.Proper) :
    Text.Tight terminal.text.toList :=
  proper.trimmed ▸ Text.tight_trimmed _

omit [CharacterData] in
/-- A name that starts in lower case is neither blank nor a hyphen or the name
of a shorthand at the front. -/
theorem lower_first
    {first : Char}
    (lower : isLower first = true) :
    Text.isBlank first = false ∧ first ≠ '-' ∧ first ≠ '%' ∧
      isShorthandStart first = false := by
  refine ⟨isBlank_of_isWordLetter (isWordLetter_of_isLower lower), ?_, ?_, ?_⟩
  · rintro rfl
    contradiction
  · rintro rfl
    contradiction
  · have isLetter := isLower_iff.mp lower
    have isUnderscore : first = '_' ↔ first.toNat = 0x5F := by
      rw [← Char.toNat_inj]
      rfl
    have noCapital : isUpper first = false := by
      rw [Bool.eq_false_iff, ne_eq, isUpper_iff]
      omega
    have noUnderscore : (first == '_') = false := by
      rw [beq_eq_false_iff_ne, ne_eq, isUnderscore]
      omega
    rw [isShorthandStart, noUnderscore, Bool.or_false]
    exact noCapital

/-- A line that declares a terminal is read as such. -/
theorem terminalLine?_of_writes
    {colonGap flagGap flags : List Char}
    (proper : terminal.Proper)
    (isColonGap : IsGap colonGap)
    (isFlagGap : IsGap flagGap)
    (writesFlags : WritesFlags terminal.options flags)
    (number : Nat) :
    ∃ names,
      terminalLine? (terminal.name.toList ++ (colonGap ++ ':' ::
          (flagGap ++ (flags ++ terminal.text.toList)))) =
        some (terminal.name, names, terminal.text.toList) ∧
      readFlags number ⟨false, false⟩ (flagNames names) =
        .ok terminal.options := by
  obtain ⟨names, splits, reads⟩ := splitFlags_append writesFlags
    proper.text_ne_nil proper.tight.first proper.noFlags number
  refine ⟨names, ?_, reads⟩
  have stops : ∀ character ∈ (colonGap ++ ':' ::
      (flagGap ++ (flags ++ terminal.text.toList))).head?,
      isWordLetter character = false := by
    cases colonGap with
    | nil => simp [isWordLetter, isLower, isUpper]
    | cons space rest =>
        rintro _ ⟨⟩
        exact isWordLetter_of_isSpace (isColonGap space List.mem_cons_self)
  have startsTight : ∀ character ∈ (flags ++ terminal.text.toList).head?,
      Text.isBlank character = false := by
    rcases writesFlags.head with rfl | ⟨rest, rfl⟩
    · exact proper.tight.first
    · simp [Text.isBlank]
  have atColon : skipBlanks (colonGap ++ ':' ::
        (flagGap ++ (flags ++ terminal.text.toList))) =
      ':' :: (flagGap ++ (flags ++ terminal.text.toList)) :=
    skipBlanks_append isColonGap (by simp [Text.isBlank])
  have somePattern : terminal.text.toList.isEmpty = false := by
    simpa using proper.text_ne_nil
  rw [terminalLine?, takeName_append proper.name stops]
  simp only [Option.bind_eq_bind, Option.bind_some, atColon,
    skipBlanks_append isFlagGap startsTight, splits, somePattern,
    String.ofList_toList]
  rfl

theorem tight_terminalLine
    (proper : terminal.Proper)
    (between : List Char) :
    Text.Tight (terminal.name.toList ++
      (between ++ terminal.text.toList)) := by
  obtain ⟨first, letters, spelt, lower, -⟩ := proper.name
  constructor
  · rw [spelt]
    rintro _ ⟨⟩
    exact (lower_first lower).1
  · obtain ⟨last, isLast⟩ : ∃ last, terminal.text.toList.getLast? = some last :=
      Option.isSome_iff_exists.mp (by simp [proper.text_ne_nil])
    intro character member
    refine proper.tight.last character ?_
    rw [isLast]
    simpa [isLast] using member

theorem readTerminalLine_terminal
    {found : TerminalSection}
    (proper : terminal.Proper)
    (isNew : ∀ earlier ∈ found.terminals, earlier.name ≠ terminal.name)
    (writes : WritesTerminal terminal line)
    (number : Nat) :
    readTerminalLine found number (Text.trimmed line) =
      .ok { found with
        terminals := found.terminals ++
          [⟨terminal.name, terminal.text, terminal.options, number⟩] } := by
  obtain @⟨colonGap, flagGap, flags, _, isColonGap, isFlagGap, writesFlags,
    padded⟩ := writes
  obtain ⟨names, isLine, reads⟩ := terminalLine?_of_writes proper isColonGap
    isFlagGap writesFlags number
  have tight := tight_terminalLine proper
    (colonGap ++ ':' :: (flagGap ++ flags))
  rw [List.append_assoc, List.cons_append, List.append_assoc] at tight
  rw [padded.trimmed tight]
  obtain ⟨first, letters, spelt, lower, -⟩ := proper.name
  obtain ⟨-, notHyphen, notPercent, notShorthand⟩ := lower_first lower
  rw [spelt, List.cons_append] at isLine ⊢
  have isNewName :
      found.terminals.any (·.name == terminal.name) = false := by
    simpa using isNew
  have noShorthandLine (rest : List Char) :
      shorthandLine? (first :: rest) = none := by
    rw [shorthandLine?, takeName, if_neg (by simp [notShorthand])]
    rfl
  have expanded : expand found.shorthands terminal.text.toList expansionLimit
      terminal.text.toList = .ok terminal.text.toList :=
    expand_eq_self proper.noShorthand (by decide) found.shorthands _
  rw [readTerminalLine, if_neg (by simp [notHyphen.symm]),
    if_neg (by simp [notPercent]), noShorthandLine, isLine]
  refine bind_of_ok expanded (bind_of_ok reads ?_)
  rw [isNewName, String.ofList_toList]
  rfl

omit [CharacterData] in
/-- A filler declares nothing. -/
theorem readTerminalLine_filler
    (isFiller : Filler line)
    (found : TerminalSection)
    (number : Nat) :
    readTerminalLine found number (Text.trimmed line) = .ok found := by
  rw [readTerminalLine, if_pos]
  rcases isFiller.trimmed with isEmpty | ⟨rest, isComment⟩
  · rw [isEmpty]
    rfl
  · rw [isComment]
    simp

omit [CharacterData] in
theorem readTerminalLine_anyCase
    (padded : Padded "%case_insensitive".toList line)
    (found : TerminalSection)
    (number : Nat) :
    readTerminalLine found number (Text.trimmed line) =
      .ok { found with anyCase := true } := by
  rw [padded.trimmed ⟨by simp [Text.isBlank], by simp [Text.isBlank]⟩,
    readTerminalLine, if_neg (by simp), if_pos rfl]

/-! ## The section -/

/-- A line of the section declares a terminal of the source. -/
structure TerminalLine.Declares (line : TerminalLine)
    (terminal : TerminalSource) : Prop where
  /-- The name. -/
  name : line.name = terminal.name
  /-- The text of the pattern. -/
  pattern : line.pattern = terminal.text
  /-- How the terminal is matched and used. -/
  options : line.options = terminal.options

/-- The lines of a section declare the terminals in order. -/
theorem readTerminalLines_of_writes
    {anyCase : Bool}
    {terminals : List TerminalSource}
    {lines : List (List Char)}
    {found : TerminalSection}
    (writes : WritesTerminals anyCase terminals lines)
    (proper : ∀ terminal ∈ terminals, terminal.Proper)
    (distinct : (found.terminals.map TerminalLine.name ++
      terminals.map TerminalSource.name).Nodup)
    (number : Nat) :
    ∃ added, readTerminalLines found number lines =
        .ok ⟨found.anyCase || anyCase, found.terminals ++ added,
          found.shorthands⟩ ∧
      List.Forall₂ TerminalLine.Declares added terminals := by
  induction writes generalizing found number with
  | nil => exact ⟨[], by simp [readTerminalLines], .nil⟩
  | filler isFiller _ inductionHypothesis =>
      obtain ⟨added, reads, declares⟩ :=
        inductionHypothesis proper distinct (number + 1)
      exact ⟨added, bind_of_ok (readTerminalLine_filler isFiller _ _) reads,
        declares⟩
  | anyCase padded _ inductionHypothesis =>
      obtain ⟨added, reads, declares⟩ := @inductionHypothesis
        { found with anyCase := true } proper distinct (number + 1)
      refine ⟨added, bind_of_ok (readTerminalLine_anyCase padded _ _) ?_,
        declares⟩
      rw [reads]
      simp
  | @terminal anyCase terminal terminals line lines writes _
      inductionHypothesis =>
      obtain ⟨isProper, others⟩ := List.forall_mem_cons.mp proper
      have isNew : ∀ earlier ∈ found.terminals,
          earlier.name ≠ terminal.name := by
        intro earlier member same
        exact (List.nodup_append.mp distinct).2.2 _
          (List.mem_map_of_mem member) _ List.mem_cons_self same
      obtain ⟨added, reads, declares⟩ := @inductionHypothesis
        { found with
          terminals := found.terminals ++
            [⟨terminal.name, terminal.text, terminal.options, number⟩] }
        others (by simpa using distinct) (number + 1)
      refine ⟨⟨terminal.name, terminal.text, terminal.options, number⟩ :: added,
        bind_of_ok (readTerminalLine_terminal isProper isNew writes _) ?_,
        .cons ⟨rfl, rfl, rfl⟩ declares⟩
      rw [reads]
      simp

omit [CharacterData] in
theorem WritesFlags.notMem_lineFeed
    {options : TerminalOptions}
    {flags : List Char}
    (writes : WritesFlags options flags) :
    '\n' ∉ flags := by
  cases writes with
  | none => exact List.not_mem_nil
  | @some flags parts gap _ known written isGap =>
      have absent : '\n' ∉ [','].intercalate parts :=
        notMem_intercalate (by decide) fun part member =>
          (notMem_flags known written part member).2.2
      simp only [List.mem_cons, List.mem_append, not_or]
      exact ⟨by decide, absent, by decide, isGap.notMem (by decide)⟩

theorem WritesTerminal.undivided
    (proper : terminal.Proper)
    (writes : WritesTerminal terminal line) :
    '\n' ∉ line ∧ Text.trimmed line ≠ ['%', '%'] := by
  obtain @⟨colonGap, flagGap, flags, _, isColonGap, isFlagGap, writesFlags,
    padded⟩ := writes
  constructor
  · have notInName : '\n' ∉ terminal.name.toList := fun member =>
      absurd (proper.name.letters isWordLetter_of_isLower _ member) (by decide)
    refine padded.notMem (by decide) ?_
    simp only [List.mem_append, List.mem_cons, not_or]
    exact ⟨notInName, isColonGap.notMem (by decide), by decide,
      isFlagGap.notMem (by decide), writesFlags.notMem_lineFeed,
      proper.oneLine⟩
  · have tight := tight_terminalLine proper
      (colonGap ++ ':' :: (flagGap ++ flags))
    rw [List.append_assoc, List.cons_append, List.append_assoc] at tight
    obtain ⟨first, letters, spelt, lower, -⟩ := proper.name
    rw [padded.trimmed tight, spelt, List.cons_append]
    intro same
    exact (lower_first lower).2.2.1 (List.cons.inj same).1

/-- The lines of a section fit on lines and do not divide the sections. -/
theorem WritesTerminals.undivided
    {anyCase : Bool}
    {terminals : List TerminalSource}
    {lines : List (List Char)}
    (writes : WritesTerminals anyCase terminals lines)
    (proper : ∀ terminal ∈ terminals, terminal.Proper) :
    ∀ line ∈ lines, '\n' ∉ line ∧ Text.trimmed line ≠ ['%', '%'] := by
  induction writes with
  | nil => exact fun _ member => absurd member List.not_mem_nil
  | filler isFiller _ inductionHypothesis =>
      refine List.forall_mem_cons.mpr ⟨⟨isFiller.notMem_lineFeed, ?_⟩,
        inductionHypothesis proper⟩
      rcases isFiller.trimmed with isEmpty | ⟨rest, isComment⟩
      · simp [isEmpty]
      · simp [isComment]
  | anyCase padded _ inductionHypothesis =>
      refine List.forall_mem_cons.mpr
        ⟨⟨padded.notMem (by decide) (by simp), ?_⟩, inductionHypothesis proper⟩
      rw [padded.trimmed ⟨by simp [Text.isBlank], by simp [Text.isBlank]⟩]
      simp
  | terminal writes _ inductionHypothesis =>
      obtain ⟨isProper, others⟩ := List.forall_mem_cons.mp proper
      exact List.forall_mem_cons.mpr
        ⟨writes.undivided isProper, inductionHypothesis others⟩

end Lines

end Definition
end ParserGenerator
