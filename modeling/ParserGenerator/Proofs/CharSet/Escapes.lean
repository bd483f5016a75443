import ParserGenerator.CharSet.Reader
import ParserGenerator.Proofs.Reading

/-!
# Escapes

The grammar of escapes. A phrase is given by the text that starts with it,
what it stands for, and the text after it; the text after a phrase may decide
whether it is one. The reader of escapes reads the phrases and nothing else.
-/

namespace ParserGenerator
namespace CharSet

open Reader

/-! ## Numerals -/

/-- The value of a numeral, if all of its characters are digits. -/
def numeral?
    (base : Nat)
    (digit? : Char → Option Nat)
    (digits : List Char) : Option Nat :=
  (digits.mapM digit?).map (numeral base)

variable {base : Nat} {digit? : Char → Option Nat} {digits : List Char}

theorem mapM_digits_eq_some_iff {values : List Nat} :
    digits.mapM digit? = some values ↔
      (∀ digit ∈ digits, (digit? digit).isSome = true) ∧
        values = digits.filterMap digit? := by
  induction digits generalizing values with
  | nil => simp [List.mapM_nil, @eq_comm _ [] values]
  | cons digit rest inductionHypothesis =>
      cases isDigit : digit? digit with
      | none => simp [List.mapM_cons, isDigit]
      | some value =>
          simp only [List.mapM_cons, isDigit, Option.bind_eq_bind,
            Option.bind_some, Option.bind_eq_some_iff, inductionHypothesis,
            List.mem_cons, forall_eq_or_imp, Option.isSome_some, true_and,
            List.filterMap_cons, Option.pure_def, Option.some.injEq]
          constructor
          · rintro ⟨_, ⟨all, rfl⟩, rfl⟩
            exact ⟨all, rfl⟩
          · rintro ⟨all, rfl⟩
            exact ⟨_, ⟨all, rfl⟩, rfl⟩

theorem numeral?_eq_some_iff {value : Nat} :
    numeral? base digit? digits = some value ↔
      (∀ digit ∈ digits, (digit? digit).isSome = true) ∧
        value = numeral base (digits.filterMap digit?) := by
  rw [numeral?, Option.map_eq_some_iff]
  simp only [mapM_digits_eq_some_iff]
  constructor
  · rintro ⟨_, ⟨all, rfl⟩, rfl⟩
    exact ⟨all, rfl⟩
  · rintro ⟨all, rfl⟩
    exact ⟨_, ⟨all, rfl⟩, rfl⟩

namespace Phrase

/-! ## The grammar of escapes -/

/-- A given number of hexadecimal digits. -/
inductive Hexadecimal (count : Nat) : List Char → Nat → List Char → Prop
  | digits
      {digits after : List Char}
      {value : Nat}
      (length : digits.length = count)
      (numeral : numeral? 16 Text.hexDigit? digits = some value) :
      Hexadecimal count (digits ++ after) value after

/-- The escape of a low surrogate. -/
inductive LowSurrogate : List Char → Nat → List Char → Prop
  | escape
      {before after : List Char}
      {low : Nat}
      (digits : Hexadecimal 4 before low after)
      (isLow : isLowSurrogate low = true) :
      LowSurrogate ('\\' :: 'u' :: before) low after

/-- A code point after a backslash and the letter `u`. A high surrogate goes
together with the escape of a low one that follows. -/
inductive CodePoint : List Char → Nat → List Char → Prop
  | braced
      {digits after : List Char}
      {value : Nat}
      (nonempty : digits ≠ [])
      (numeral : numeral? 16 Text.hexDigit? digits = some value)
      (known : value ≤ maxCodePoint) :
      CodePoint ('\x7b' :: (digits ++ '\x7d' :: after)) value after
  | pair
      {before middle after : List Char}
      {high low : Nat}
      (digits : Hexadecimal 4 before high middle)
      (isHigh : isHighSurrogate high = true)
      (follows : LowSurrogate middle low after) :
      CodePoint before (joinSurrogates high low) after
  | unit
      {before after : List Char}
      {value : Nat}
      (digits : Hexadecimal 4 before value after)
      (alone : isHighSurrogate value = true →
        ∀ low rest, ¬ LowSurrogate after low rest) :
      CodePoint before value after

/-- The name of categories: one character, or any text between braces. -/
inductive CategoryName : List Char → String → List Char → Prop
  | braced
      {letters after : List Char}
      (closed : '\x7d' ∉ letters) :
      CategoryName ('\x7b' :: (letters ++ '\x7d' :: after))
        (String.ofList letters) after
  | letter
      {letter : Char}
      {after : List Char}
      (bare : letter ≠ '\x7b') :
      CategoryName (letter :: after) letter.toString after

/-- An escape whose backslash has been read. -/
inductive Escape [CharacterData] :
    List Char → CharSet.Escape → List Char → Prop
  | control
      {letter : Char}
      {after : List Char}
      {point : Nat}
      (known : control? letter = some point) :
      Escape (letter :: after) (.character point) after
  | shorthand
      {letter : Char}
      {after : List Char}
      {characters : CharSet}
      (known : shorthand? letter = some characters) :
      Escape (letter :: after) (.set characters) after
  | byte
      {before after : List Char}
      {point : Nat}
      (digits : Hexadecimal 2 before point after) :
      Escape ('x' :: before) (.character point) after
  | codePoint
      {before after : List Char}
      {point : Nat}
      (codePoint : CodePoint before point after) :
      Escape ('u' :: before) (.character point) after
  | category
      {before after : List Char}
      {name : String}
      {categories : Categories}
      (named : CategoryName before name after)
      (known : Categories.ofName? (Text.trim name) = some categories) :
      Escape ('p' :: before) (.set (ofCategories categories)) after
  | complement
      {before after : List Char}
      {name : String}
      {categories : Categories}
      (named : CategoryName before name after)
      (known : Categories.ofName? (Text.trim name) = some categories) :
      Escape ('P' :: before) (.set (ofCategories categories).negate) after
  | mark
      {character : Char}
      {after : List Char}
      (isMark : isPunctuation character = true ∨ character = ' ') :
      Escape (character :: after) (.character character.toNat) after

end Phrase

/-! ## Lengths -/

variable {start : Nat} {before after : Cursor} {text rest : List Char}

namespace Phrase

theorem Hexadecimal.length_le
    {count value : Nat}
    (hexadecimal : Hexadecimal count text value rest) :
    rest.length ≤ text.length := by
  cases hexadecimal with
  | digits => simp

theorem CodePoint.length_le
    {point : Nat}
    (codePoint : CodePoint text point rest) :
    rest.length ≤ text.length := by
  cases codePoint with
  | braced =>
      simp only [List.length_cons, List.length_append]
      omega
  | unit digits => exact digits.length_le
  | pair high _ follows =>
      cases follows with
      | escape low =>
          have highLe := high.length_le
          have lowLe := low.length_le
          simp only [List.length_cons] at highLe
          omega

theorem CategoryName.length_le
    {name : String}
    (named : CategoryName text name rest) :
    rest.length ≤ text.length := by
  cases named <;> simp only [List.length_cons, List.length_append] <;> omega

theorem Escape.length_lt
    [CharacterData]
    {escape : CharSet.Escape}
    (phrase : Escape text escape rest) :
    rest.length < text.length := by
  cases phrase with
  | control | shorthand | mark => exact Nat.lt_succ_self _
  | byte digits => exact Nat.lt_succ_of_le digits.length_le
  | codePoint codePoint => exact Nat.lt_succ_of_le codePoint.length_le
  | category named | complement named =>
      exact Nat.lt_succ_of_le named.length_le

end Phrase

/-! ## Hexadecimal digits -/

theorem digits_of_gives_readHex
    {count initial value : Nat}
    (gives : Gives (readHex start count initial) before value after) :
    ∃ digits values, before.rest = digits ++ after.rest ∧
      digits.length = count ∧ digits.mapM Text.hexDigit? = some values ∧
      value = values.foldl (fun value digit => value * 16 + digit) initial := by
  induction count generalizing before initial with
  | zero =>
      obtain ⟨rfl, rfl⟩ := gives_pure_iff.mp gives
      exact ⟨[], [], rfl, rfl, rfl, rfl⟩
  | succ count inductionHypothesis =>
      rcases gives_next_bind_cases gives with
        fails | ⟨character, between, starts, continues⟩
      · exact absurd fails not_gives_failAt
      · rw [Option.bind_some] at continues
        split at continues
        · next digit isDigit =>
            obtain ⟨digits, values, splits, length, mapped, rfl⟩ :=
              inductionHypothesis continues
            refine ⟨character :: digits, digit :: values, ?_,
              congrArg Nat.succ length, ?_, rfl⟩
            · rw [starts, splits, List.cons_append]
            · simp [List.mapM_cons, isDigit, mapped]
        · exact absurd continues not_gives_failAt

theorem hexadecimal_of_gives
    {count value : Nat}
    (gives : Gives (readHex start count 0) before value after) :
    Phrase.Hexadecimal count before.rest value after.rest := by
  obtain ⟨digits, values, split, length, mapped, rfl⟩ :=
    digits_of_gives_readHex gives
  rw [split]
  refine .digits length ?_
  rw [numeral?, mapped]
  rfl

theorem reads_readHex
    {values : List Nat}
    (initial : Nat)
    (mapped : digits.mapM Text.hexDigit? = some values) :
    Reads (readHex start digits.length initial) (digits ++ rest)
      (values.foldl (fun value digit => value * 16 + digit) initial) rest := by
  induction digits generalizing initial values with
  | nil =>
      cases mapped
      exact reads_pure
  | cons character digits inductionHypothesis =>
      simp only [List.mapM_cons, Option.bind_eq_bind, Option.bind_eq_some_iff,
        Option.pure_def, Option.some.injEq] at mapped
      obtain ⟨digit, isDigit, values, mapped, rfl⟩ := mapped
      refine reads_next.bind ?_
      rw [Option.bind_some, isDigit]
      exact inductionHypothesis _ mapped

theorem reads_hexadecimal
    {count value : Nat}
    (hexadecimal : Phrase.Hexadecimal count text value rest) :
    Reads (readHex start count 0) text value rest := by
  cases hexadecimal with
  | digits length numeral =>
      subst length
      obtain ⟨values, mapped, rfl⟩ := Option.map_eq_some_iff.mp numeral
      exact reads_readHex 0 mapped

theorem keeps_readHex
    {limit : Nat}
    (inside : start ≤ limit)
    (count value : Nat) :
    Keeps limit (readHex start count value) := by
  induction count generalizing value with
  | zero => exact keeps_pure _
  | succ count inductionHypothesis =>
      refine keeps_next.bind fun moved => ?_
      split
      · exact inductionHypothesis _
      · exact keeps_failAt inside _

/-! ## Code points -/

theorem lowSurrogate_of_ahead
    {low : Nat}
    (ahead : lowSurrogateAhead before = some (low, after)) :
    Phrase.LowSurrogate before.rest low after.rest := by
  unfold lowSurrogateAhead at ahead
  split at ahead
  · split at ahead
    · next given between gives =>
        split at ahead
        · next isLow =>
            cases ahead
            exact .escape (hexadecimal_of_gives gives) isLow
        · cases ahead
    · cases ahead
  · cases ahead

theorem exists_ahead_of_lowSurrogate
    {low : Nat}
    (lowSurrogate : Phrase.LowSurrogate text low rest)
    (position : Nat) :
    ∃ place, lowSurrogateAhead ⟨text, position⟩ =
      some (low, ⟨rest, place⟩) := by
  cases lowSurrogate with
  | @escape text _ _ digits isLow =>
      obtain ⟨place, gives⟩ : ∃ place, Gives (readHex position 4 0)
          ⟨text, position + 2⟩ low ⟨rest, place⟩ :=
        reads_hexadecimal digits (position + 2)
      refine ⟨place, ?_⟩
      rw [lowSurrogateAhead, show StateT.run _ _ = _ from gives]
      exact if_pos isLow

theorem braceless_of_hexadecimal
    {count value : Nat}
    (hexadecimal : Phrase.Hexadecimal (count + 1) text value rest) :
    text.head? ≠ some '\x7b' := by
  cases hexadecimal with
  | @digits digits _ _ length numeral =>
      cases digits with
      | nil => cases length
      | cons first digits =>
          have isDigit := (numeral?_eq_some_iff.mp numeral).1 first
            List.mem_cons_self
          rintro ⟨⟩
          cases isDigit

theorem codePoint_of_gives
    {point : Nat}
    (gives : Gives (readCodePoint start) before point after) :
    Phrase.CodePoint before.rest point after.rest := by
  rcases gives_eat_bind_cases gives with
    ⟨opened, opens, continues⟩ | ⟨-, continues⟩
  · obtain ⟨digits, between, splits, all, continues⟩ :=
      exists_gives_of_takeWhile_bind continues
    obtain ⟨closed, closes, continues⟩ := exists_gives_of_expect_bind continues
    dsimp only at continues
    split at continues
    · exact absurd continues not_gives_failAt
    · next proper =>
        simp only [Bool.or_eq_true, decide_eq_true_eq, not_or,
          List.isEmpty_iff, Nat.not_lt] at proper
        obtain ⟨rfl, rfl⟩ := gives_pure_iff.mp continues
        rw [opens, splits, closes]
        exact .braced proper.1 (numeral?_eq_some_iff.mpr ⟨all, rfl⟩) proper.2
  · obtain ⟨value, between, reads, continues⟩ := gives_bind_iff.mp continues
    have digits := hexadecimal_of_gives reads
    split at continues
    · next isHigh =>
        obtain ⟨cursor, _, gets, continues⟩ := gives_bind_iff.mp continues
        cases gets
        split at continues
        · next low behind ahead =>
            obtain ⟨_, _, sets, ends⟩ := gives_bind_iff.mp continues
            cases sets
            obtain ⟨joined, rfl⟩ := gives_pure_iff.mp ends
            rw [joined]
            exact .pair digits isHigh (lowSurrogate_of_ahead ahead)
        · next notAhead =>
            obtain ⟨rfl, rfl⟩ := gives_pure_iff.mp continues
            refine .unit digits fun _ low rest follows => ?_
            obtain ⟨place, ahead⟩ :=
              exists_ahead_of_lowSurrogate follows between.position
            rw [show lowSurrogateAhead between = _ from ahead] at notAhead
            cases notAhead
    · next notHigh =>
        obtain ⟨rfl, rfl⟩ := gives_pure_iff.mp continues
        exact .unit digits fun isHigh => absurd isHigh notHigh

theorem reads_codePoint
    {point : Nat}
    (codePoint : Phrase.CodePoint text point rest) :
    Reads (readCodePoint start) text point rest := by
  cases codePoint with
  | @braced digits _ _ nonempty numeral known =>
      obtain ⟨all, rfl⟩ := numeral?_eq_some_iff.mp numeral
      refine reads_eat.bind ?_
      rw [if_pos rfl]
      refine (reads_takeWhile all ?_).bind (reads_expect.bind ?_)
      · rintro _ ⟨⟩
        rfl
      · dsimp only
        rw [if_neg]
        · exact reads_pure
        · simp [nonempty, known]
  | @pair _ middle _ high low digits isHigh follows =>
      refine (reads_eat_other (braceless_of_hexadecimal digits)).bind
        ((reads_hexadecimal digits).bind ?_)
      rw [if_pos isHigh]
      intro position
      obtain ⟨place, ahead⟩ := exists_ahead_of_lowSurrogate follows position
      refine ⟨place, gives_bind_iff.mpr ⟨_, ⟨middle, position⟩, rfl, ?_⟩⟩
      rw [ahead]
      rfl
  | unit digits alone =>
      refine (reads_eat_other (braceless_of_hexadecimal digits)).bind
        ((reads_hexadecimal digits).bind ?_)
      split
      · next isHigh =>
          -- Looking ahead for a low surrogate leaves the cursor where it is.
          intro position
          refine ⟨position, gives_bind_iff.mpr ⟨_, ⟨rest, position⟩, rfl, ?_⟩⟩
          cases ahead : lowSurrogateAhead ⟨rest, position⟩ with
          | none => rfl
          | some given =>
              exact absurd (lowSurrogate_of_ahead ahead) (alone isHigh _ _)
      · exact reads_pure

theorem kept_of_ahead
    {low limit : Nat}
    (ahead : lowSurrogateAhead before = some (low, after))
    (kept : before.position + before.rest.length = limit) :
    after.position + after.rest.length = limit := by
  unfold lowSurrogateAhead at ahead
  split at ahead
  · next rest position =>
      split at ahead
      · next given between run =>
          have inside : position ≤ limit := kept ▸ Nat.le_add_right _ _
          have keeps := keeps_readHex inside 4 0 ⟨rest, position + 2⟩ <| by
            simp only [List.length_cons] at kept ⊢
            omega
          rw [run] at keeps
          split at ahead
          · cases ahead
            exact keeps
          · cases ahead
      · cases ahead
  · cases ahead

theorem keeps_readCodePoint
    {limit : Nat}
    (inside : start ≤ limit) :
    Keeps limit (readCodePoint start) := by
  refine (keeps_eat _).bind fun braced => ?_
  split
  · refine (keeps_takeWhile _).bind fun digits =>
      (keeps_expect _).bind fun _ => ?_
    dsimp only
    split
    · exact keeps_failAt inside _
    · exact keeps_pure _
  · refine (keeps_readHex inside 4 0).bind fun value => ?_
    split
    · refine keeps_get_bind fun cursor kept => ?_
      split
      · next ahead =>
          exact (keeps_set (kept_of_ahead ahead kept)).bind fun _ =>
            keeps_pure _
      · exact keeps_pure _
    · exact keeps_pure _

/-! ## Names of categories -/

theorem categoryName_of_gives
    {name : String}
    (gives : Gives (readCategoryName start) before name after) :
    Phrase.CategoryName before.rest name after.rest := by
  rcases gives_eat_bind_cases gives with
    ⟨opened, opens, continues⟩ | ⟨bare, continues⟩
  · obtain ⟨letters, between, splits, all, continues⟩ :=
      exists_gives_of_takeWhile_bind continues
    rcases gives_eat_bind_cases continues with
      ⟨closed, closes, ends⟩ | ⟨-, fails⟩
    · obtain ⟨rfl, rfl⟩ := gives_pure_iff.mp ends
      rw [opens, splits, closes]
      refine .braced fun member => ?_
      simpa using all _ member
    · exact absurd fails not_gives_failAt
  · rcases gives_next_bind_cases continues with
      fails | ⟨letter, between, starts, ends⟩
    · exact absurd fails not_gives_failAt
    · obtain ⟨rfl, rfl⟩ := gives_pure_iff.mp ends
      rw [starts] at bare ⊢
      exact .letter fun opens => bare (congrArg some opens)

theorem reads_categoryName
    {name : String}
    (named : Phrase.CategoryName text name rest) :
    Reads (readCategoryName start) text name rest := by
  cases named with
  | @braced letters _ closed =>
      refine reads_eat.bind ?_
      rw [if_pos rfl]
      refine (reads_takeWhile ?_ ?_).bind (reads_eat.bind reads_pure)
      · intro letter member
        rw [bne_iff_ne]
        rintro rfl
        exact closed member
      · rintro _ ⟨⟩
        rfl
  | letter bare =>
      refine (reads_eat_other ?_).bind (reads_next.bind reads_pure)
      rwa [List.head?_cons, Ne, Option.some_inj]

theorem keeps_readCategoryName
    {limit : Nat}
    (inside : start ≤ limit) :
    Keeps limit (readCategoryName start) := by
  refine (keeps_eat _).bind fun braced => ?_
  split
  · refine (keeps_takeWhile _).bind fun letters =>
      (keeps_eat _).bind fun closed => ?_
    split
    · exact keeps_pure _
    · exact keeps_failAt inside _
  · refine keeps_next.bind fun moved => ?_
    split
    · exact keeps_pure _
    · exact keeps_failAt inside _

theorem category_of_gives
    {characters : CharSet}
    (gives : Gives (readCategory start) before characters after) :
    ∃ name categories,
      Phrase.CategoryName before.rest name after.rest ∧
        Categories.ofName? (Text.trim name) = some categories ∧
        characters = ofCategories categories := by
  obtain ⟨name, between, reads, continues⟩ := gives_bind_iff.mp gives
  split at continues
  · next categories known =>
      obtain ⟨rfl, rfl⟩ := gives_pure_iff.mp continues
      exact ⟨name, categories, categoryName_of_gives reads, known, rfl⟩
  · exact absurd continues not_gives_failAt

theorem reads_category
    {name : String}
    {categories : Categories}
    (named : Phrase.CategoryName text name rest)
    (known : Categories.ofName? (Text.trim name) = some categories) :
    Reads (readCategory start) text (ofCategories categories) rest := by
  refine (reads_categoryName named).bind ?_
  rw [known]
  exact reads_pure

theorem keeps_readCategory
    {limit : Nat}
    (inside : start ≤ limit) :
    Keeps limit (readCategory start) := by
  refine (keeps_readCategoryName inside).bind fun name => ?_
  split
  · exact keeps_pure _
  · exact keeps_failAt inside _

/-! ## Escapes -/

variable [CharacterData]

/-- What the reader of escapes gives is an escape. -/
theorem escape_of_gives
    {escape : Escape}
    (gives : Gives readEscape before escape after) :
    Phrase.Escape before.rest escape after.rest := by
  rcases gives_next_bind_cases (gives_position_bind gives) with
    fails | ⟨character, between, starts, continues⟩
  · exact absurd fails not_gives_failAt
  rw [starts]
  dsimp only at continues
  split at continues
  · next point known =>
      obtain ⟨rfl, rfl⟩ := gives_pure_iff.mp continues
      exact .control known
  split at continues
  · next characters known =>
      obtain ⟨rfl, rfl⟩ := gives_pure_iff.mp continues
      exact .shorthand known
  split at continues
  · next isByte =>
      obtain ⟨point, _, reads, ends⟩ := gives_bind_iff.mp continues
      obtain ⟨rfl, rfl⟩ := gives_pure_iff.mp ends
      rw [isByte]
      exact .byte (hexadecimal_of_gives reads)
  split at continues
  · next isUnicode =>
      obtain ⟨point, _, reads, ends⟩ := gives_bind_iff.mp continues
      obtain ⟨rfl, rfl⟩ := gives_pure_iff.mp ends
      rw [isUnicode]
      exact .codePoint (codePoint_of_gives reads)
  split at continues
  · next isCategory =>
      obtain ⟨_, _, reads, ends⟩ := gives_bind_iff.mp continues
      obtain ⟨rfl, rfl⟩ := gives_pure_iff.mp ends
      obtain ⟨name, categories, named, known, rfl⟩ := category_of_gives reads
      rw [isCategory]
      exact .category named known
  split at continues
  · next isComplement =>
      obtain ⟨_, _, reads, ends⟩ := gives_bind_iff.mp continues
      obtain ⟨rfl, rfl⟩ := gives_pure_iff.mp ends
      obtain ⟨name, categories, named, known, rfl⟩ := category_of_gives reads
      rw [isComplement]
      exact .complement named known
  split at continues
  · next isMark =>
      obtain ⟨rfl, rfl⟩ := gives_pure_iff.mp continues
      exact .mark (by simpa using isMark)
  · exact absurd continues not_gives_failAt

omit [CharacterData] in
theorem control?_eq_none_of_isMark
    {character : Char}
    (isMark : isPunctuation character = true ∨ character = ' ') :
    control? character = none := by
  unfold control?
  split <;> first | rfl | exact absurd isMark (by decide)

theorem shorthand?_eq_none_of_isMark
    {character : Char}
    (isMark : isPunctuation character = true ∨ character = ' ') :
    shorthand? character = none := by
  unfold shorthand?
  split <;> first | rfl | exact absurd isMark (by decide)

theorem control?_eq_none_of_shorthand
    {letter : Char}
    {characters : CharSet}
    (known : shorthand? letter = some characters) :
    control? letter = none := by
  unfold shorthand? at known
  split at known <;> first | rfl | cases known

/-- The reader of escapes reads every escape. -/
theorem reads_escape
    {escape : Escape}
    (phrase : Phrase.Escape text escape rest) :
    Reads readEscape text escape rest := by
  refine reads_position_bind fun place => ?_
  cases phrase with
  | control known =>
      refine reads_next.bind ?_
      simp only [known]
      exact reads_pure
  | shorthand known =>
      refine reads_next.bind ?_
      simp only [known, control?_eq_none_of_shorthand known]
      exact reads_pure
  | byte digits =>
      exact reads_next.bind ((reads_hexadecimal digits).bind reads_pure)
  | codePoint codePoint =>
      exact reads_next.bind ((reads_codePoint codePoint).bind reads_pure)
  | category named known =>
      exact reads_next.bind ((reads_category named known).bind reads_pure)
  | complement named known =>
      exact reads_next.bind ((reads_category named known).bind reads_pure)
  | @mark character _ isMark =>
      have noMark
          {letter : Char}
          (isOther : ¬ (isPunctuation letter = true ∨ letter = ' ')) :
          character ≠ letter :=
        fun same => isOther (same ▸ isMark)
      refine reads_next.bind ?_
      simp only [control?_eq_none_of_isMark isMark,
        shorthand?_eq_none_of_isMark isMark]
      rw [if_neg (noMark (by decide)), if_neg (noMark (by decide)),
        if_neg (noMark (by decide)), if_neg (noMark (by decide)),
        if_pos (by simpa using isMark)]
      exact reads_pure

theorem keeps_readEscape {limit : Nat} : Keeps limit readEscape := by
  refine keeps_position_bind fun place inside => ?_
  -- Faults are put at the backslash, which has been read before.
  have start : place - 1 ≤ limit := Nat.le_trans (Nat.sub_le _ _) inside
  refine keeps_next.bind fun moved => ?_
  cases moved with
  | none => exact keeps_failAt start _
  | some character =>
      dsimp only
      split
      · exact keeps_pure _
      split
      · exact keeps_pure _
      split
      · exact (keeps_readHex start 2 0).bind fun _ => keeps_pure _
      split
      · exact (keeps_readCodePoint start).bind fun _ => keeps_pure _
      split
      · exact (keeps_readCategory start).bind fun _ => keeps_pure _
      split
      · exact (keeps_readCategory start).bind fun _ => keeps_pure _
      split
      · exact keeps_pure _
      · exact keeps_failAt start _

end CharSet
end ParserGenerator
