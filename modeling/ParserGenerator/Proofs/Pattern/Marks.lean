import ParserGenerator.Proofs.Pattern.Phrases

/-!
# Reading repetition marks

The reader of repetition marks reads the marks of the grammar, counts among
them, and goes on until none follows.
-/

namespace ParserGenerator
namespace Pattern

open Reader

variable {before after : Cursor} {text rest : List Char}

/-! ## Counts -/

/-- The text goes on with a decimal digit. -/
def StartsNumber (text : List Char) : Prop :=
  ∃ digit ∈ text.head?, (Text.decimalDigit? digit).isSome = true

theorem number_of_gives
    {number : Option Nat}
    (gives : Gives readNumber before number after) :
    ∃ digits, before.rest = digits ++ after.rest ∧
      (digits = [] ∧ number = none ∨
        digits ≠ [] ∧ ∃ count,
          CharSet.numeral? 10 Text.decimalDigit? digits = some count ∧
            number = some (min count numeralLimit)) := by
  obtain ⟨digits, between, splits, all, continues⟩ :=
    exists_gives_of_takeWhile_bind gives
  split at continues
  · next none =>
      obtain ⟨rfl, rfl⟩ := gives_pure_iff.mp continues
      exact ⟨digits, splits, .inl ⟨List.isEmpty_iff.mp none, rfl⟩⟩
  · next some =>
      obtain ⟨rfl, rfl⟩ := gives_pure_iff.mp continues
      refine ⟨digits, splits, .inr ⟨?_, _,
        CharSet.numeral?_eq_some_iff.mpr ⟨all, rfl⟩, rfl⟩⟩
      rintro rfl
      exact some rfl

theorem reads_number
    {digits : List Char}
    {count : Nat}
    (number : Phrase.Count digits count)
    (stops : ¬ StartsNumber rest) :
    Reads readNumber (digits ++ rest) (some count) rest := by
  obtain ⟨all, rfl⟩ := CharSet.numeral?_eq_some_iff.mp number.numeral
  refine (reads_takeWhile all fun character isNext => ?_).bind ?_
  · rw [← Bool.not_eq_true]
    exact fun isDigit => stops ⟨character, isNext, isDigit⟩
  · rw [if_neg (by simpa using number.nonempty)]
    have within : countLimit ≤ numeralLimit := by decide
    have small := Nat.min_eq_left (Nat.le_trans number.limited within)
    dsimp only
    rw [small]
    exact reads_pure

theorem reads_noNumber
    (stops : ¬ StartsNumber rest) :
    Reads readNumber rest none rest := by
  have noDigit : Reads (takeWhile fun character =>
      (Text.decimalDigit? character).isSome) ([] ++ rest) [] rest := by
    refine reads_takeWhile nofun fun character isNext => ?_
    rw [← Bool.not_eq_true]
    exact fun isDigit => stops ⟨character, isNext, isDigit⟩
  exact noDigit.bind reads_pure

theorem keeps_readNumber {limit : Nat} : Keeps limit readNumber := by
  refine (keeps_takeWhile _).bind fun digits => ?_
  dsimp only
  split <;> exact keeps_pure _

/-- The end of a count, whose bounds have been read. -/
def closeCount
    (start least : Nat)
    (most : Option Nat) : Reader (Nat × Option Nat) := do
  expect '\x7d'
  if most.any (· < least) then
    failAt start .boundsOutOfOrder
  else if countLimit < max least (most.getD 0) then
    failAt start .countTooLarge
  else
    return (least, most)

theorem of_gives_closeCount
    {start least : Nat}
    {most : Option Nat}
    {bounds : Nat × Option Nat}
    (gives : Gives (closeCount start least most) before bounds after) :
    before.rest = '\x7d' :: after.rest ∧ bounds = (least, most) ∧
      (∀ greatest ∈ most, least ≤ greatest) ∧
      max least (most.getD 0) ≤ countLimit := by
  obtain ⟨between, closes, continues⟩ := exists_gives_of_expect_bind gives
  split at continues
  · exact absurd continues not_gives_failAt
  · next ordered =>
      split at continues
      · exact absurd continues not_gives_failAt
      · next limited =>
          obtain ⟨rfl, rfl⟩ := gives_pure_iff.mp continues
          refine ⟨closes, rfl, ?_, Nat.not_lt.mp limited⟩
          rintro greatest rfl
          simpa using ordered

theorem reads_closeCount
    {start least : Nat}
    {most : Option Nat}
    (ordered : ∀ greatest ∈ most, least ≤ greatest)
    (limited : max least (most.getD 0) ≤ countLimit) :
    Reads (closeCount start least most) ('\x7d' :: rest) (least, most)
      rest := by
  refine reads_expect.bind ?_
  rw [if_neg, if_neg (Nat.not_lt.mpr limited)]
  · exact reads_pure
  · cases most with
    | none => simp
    | some greatest => simpa using ordered greatest rfl

theorem keeps_closeCount
    {limit start : Nat}
    (inside : start ≤ limit)
    (least : Nat)
    (most : Option Nat) :
    Keeps limit (closeCount start least most) := by
  refine (keeps_expect _).bind fun _ => ?_
  split
  · exact keeps_failAt inside _
  split
  · exact keeps_failAt inside _
  · exact keeps_pure _

/-- Numbers within the limit of counts are not cut off. -/
theorem count_of_min_le
    {digits : List Char}
    {count : Nat}
    (nonempty : digits ≠ [])
    (numeral : CharSet.numeral? 10 Text.decimalDigit? digits = some count)
    (limited : min count numeralLimit ≤ countLimit) :
    Phrase.Count digits (min count numeralLimit) := by
  have within : countLimit < numeralLimit := by decide
  have same : min count numeralLimit = count := by omega
  rw [same] at limited ⊢
  exact ⟨nonempty, numeral, limited⟩

theorem bounds_of_gives
    {bounds : Nat × Option Nat}
    (gives : Gives readCount before bounds after) :
    Phrase.Bounds before.rest bounds.1 bounds.2 after.rest := by
  obtain ⟨opened, opens, continues⟩ :=
    exists_gives_of_expect_bind (gives_position_bind gives)
  obtain ⟨number, counted, reads, continues⟩ := gives_bind_iff.mp continues
  obtain ⟨lower, lowerSplits,
    ⟨-, rfl⟩ | ⟨lowerSome, least, lowerNumeral, rfl⟩⟩ := number_of_gives reads
  · exact absurd continues not_gives_fail
  rcases gives_eat_bind_cases continues with
    ⟨parted, divides, continues⟩ | ⟨-, continues⟩
  · obtain ⟨most, ended, reads, continues⟩ := gives_bind_iff.mp continues
    obtain ⟨closes, rfl, ordered, limited⟩ := of_gives_closeCount continues
    have lowerCount := count_of_min_le lowerSome lowerNumeral
      (Nat.le_trans (Nat.le_max_left _ _) limited)
    obtain ⟨upper, upperSplits,
      ⟨rfl, rfl⟩ | ⟨upperSome, greatest, upperNumeral, rfl⟩⟩ :=
        number_of_gives reads
    · rw [opens, lowerSplits, divides, upperSplits, closes]
      exact .atLeast lowerCount
    · rw [opens, lowerSplits, divides, upperSplits, closes]
      exact .between lowerCount (count_of_min_le upperSome upperNumeral
        (Nat.le_trans (Nat.le_max_right _ _) limited)) (ordered _ rfl)
  · obtain ⟨most, _, same, continues⟩ := gives_bind_iff.mp continues
    obtain ⟨rfl, rfl⟩ := gives_pure_iff.mp same
    obtain ⟨closes, rfl, -, limited⟩ := of_gives_closeCount continues
    rw [opens, lowerSplits, closes]
    exact .exactly (count_of_min_le lowerSome lowerNumeral
      (Nat.le_trans (Nat.le_max_left _ _) limited))

theorem reads_bounds
    {least : Nat}
    {most : Option Nat}
    (bounds : Phrase.Bounds text least most rest) :
    Reads readCount text (least, most) rest := by
  refine reads_position_bind fun start => ?_
  have closed : ¬ StartsNumber ('\x7d' :: rest) := by
    simp [StartsNumber, Text.decimalDigit?]
  have divided (rest : List Char) : ¬ StartsNumber (',' :: rest) := by
    simp [StartsNumber, Text.decimalDigit?]
  cases bounds with
  | exactly number =>
      refine reads_expect.bind ((reads_number number closed).bind ?_)
      refine (reads_eat_other (by simp)).bind ?_
      exact reads_pure.bind (reads_closeCount (by simp) (by
        simpa using number.limited))
  | atLeast number =>
      refine reads_expect.bind ((reads_number number (divided _)).bind ?_)
      refine reads_eat.bind ((reads_noNumber closed).bind ?_)
      exact reads_closeCount (by simp) (by simpa using number.limited)
  | between lowerNumber upperNumber ordered =>
      refine reads_expect.bind ((reads_number lowerNumber (divided _)).bind ?_)
      refine reads_eat.bind ((reads_number upperNumber closed).bind ?_)
      refine reads_closeCount (by simpa using ordered) ?_
      exact Nat.max_le.mpr ⟨lowerNumber.limited, upperNumber.limited⟩

theorem keeps_readCount {limit : Nat} : Keeps limit readCount := by
  refine keeps_position_bind fun start inside =>
    (keeps_expect _).bind fun _ => keeps_readNumber.bind fun number => ?_
  cases number with
  | none => exact keeps_fail _
  | some least =>
      refine (keeps_eat _).bind fun divided => ?_
      split
      · exact keeps_readNumber.bind fun most =>
          keeps_closeCount inside least most
      · exact (keeps_pure _).bind fun most =>
          keeps_closeCount inside least most

/-! ## Marks -/

theorem tests_countFollows : Tests countFollows Phrase.OpensCount :=
  fun cursor =>
    ⟨_, rfl, by simp [Phrase.OpensCount, Option.any_eq_true]⟩

theorem Phrase.Bounds.opensCount
    {least : Nat}
    {most : Option Nat}
    (bounds : Bounds text least most rest) :
    OpensCount text := by
  have starts {digits following : List Char} {count : Nat}
      (number : Count digits count) :
      OpensCount ('\x7b' :: (digits ++ following)) := by
    obtain ⟨nonempty, numeral, -⟩ := number
    obtain ⟨all, -⟩ := CharSet.numeral?_eq_some_iff.mp numeral
    cases digits with
    | nil => exact absurd rfl nonempty
    | cons first digits => exact ⟨rfl, first, rfl, all first List.mem_cons_self⟩
  cases bounds with
  | exactly number | atLeast number => exact starts number
  | between lowerNumber => exact starts lowerNumber

/-- The repetition marks that are read are all that follow. -/
theorem marks_of_gives
    {fuel : Nat}
    {atom result : Pattern}
    (gives : Gives (readMarks fuel atom) before result after)
    (enough : before.rest.length < fuel) :
    ∃ marks, Phrase.Marks before.rest marks after.rest ∧
      result = marks atom := by
  induction fuel generalizing before atom with
  | zero => exact absurd enough (Nat.not_lt_zero _)
  | succ fuel inductionHypothesis =>
      have more
          {mark : Pattern → Pattern}
          {text : List Char}
          {between : Cursor}
          (starts : before.rest = text)
          (first : Phrase.Mark text mark between.rest)
          (continues :
            Gives (readMarks fuel (mark atom)) between result after) :
          ∃ marks, Phrase.Marks before.rest marks after.rest ∧
            result = marks atom := by
        subst starts
        have shorter := first.length_lt
        obtain ⟨marks, marked, rfl⟩ :=
          inductionHypothesis continues (by omega)
        exact ⟨_, .more first marked, rfl⟩
      -- The marks of one character are tried in turn before a count.
      rcases gives_eat_bind_cases gives with
        ⟨between, starts, continues⟩ | ⟨-, continues⟩
      · exact more starts .star continues
      rcases gives_eat_bind_cases continues with
        ⟨between, starts, continues⟩ | ⟨-, continues⟩
      · exact more starts .plus continues
      rcases gives_eat_bind_cases continues with
        ⟨between, starts, continues⟩ | ⟨-, continues⟩
      · exact more starts .optional continues
      rcases tests_countFollows.gives_bind_cases continues with
        ⟨-, continues⟩ | ⟨ends, continues⟩
      · obtain ⟨bounds, _, reads, continues⟩ := gives_bind_iff.mp continues
        exact more rfl (.count (bounds_of_gives reads)) continues
      · obtain ⟨rfl, rfl⟩ := gives_pure_iff.mp continues
        exact ⟨id, .done ends, rfl⟩

/-- All the repetition marks that follow are read. -/
theorem reads_marks
    {marks : Pattern → Pattern}
    (marked : Phrase.Marks text marks rest)
    (unmarked : Phrase.Unmarked rest)
    (fuel : Nat)
    (atom : Pattern)
    (enough : text.length < fuel) :
    Reads (readMarks fuel atom) text (marks atom) rest := by
  induction marked generalizing fuel atom with
  | done ends =>
      have no (mark : Char) (isMark : mark ∈ ['*', '+', '?']) :
          List.head? _ ≠ some mark :=
        fun isNext => unmarked mark isNext isMark
      cases fuel with
      | zero => exact reads_pure
      | succ fuel =>
          refine (reads_eat_other (no '*' (by decide))).bind
            ((reads_eat_other (no '+' (by decide))).bind
              ((reads_eat_other (no '?' (by decide))).bind
                ((tests_countFollows.reads_other ends).bind reads_pure)))
  | @more before middle after mark others first rest inductionHypothesis =>
      have shorter := first.length_lt
      cases fuel with
      | zero => exact absurd enough (Nat.not_lt_zero _)
      | succ fuel =>
          have continues := inductionHypothesis unmarked fuel (mark atom)
            (by omega)
          cases first with
          | star => exact reads_eat.bind continues
          | plus =>
              exact (reads_eat_other (by simp)).bind (reads_eat.bind continues)
          | optional =>
              exact (reads_eat_other (by simp)).bind
                ((reads_eat_other (by simp)).bind (reads_eat.bind continues))
          | count bounds =>
              have opens := bounds.opensCount
              have no (mark : Char) (other : mark ≠ '\x7b') :
                  List.head? before ≠ some mark :=
                fun isNext => other (Option.some.inj
                  (isNext.symm.trans opens.1))
              exact (reads_eat_other (no '*' (by decide))).bind
                ((reads_eat_other (no '+' (by decide))).bind
                  ((reads_eat_other (no '?' (by decide))).bind
                    ((tests_countFollows.reads opens).bind
                      ((reads_bounds bounds).bind continues))))

theorem keeps_readMarks {limit : Nat} (fuel : Nat) (atom : Pattern) :
    Keeps limit (readMarks fuel atom) := by
  induction fuel generalizing atom with
  | zero => exact keeps_pure _
  | succ fuel inductionHypothesis =>
      refine (keeps_eat _).bind fun star => ?_
      split
      · exact inductionHypothesis _
      refine (keeps_eat _).bind fun plus => ?_
      split
      · exact inductionHypothesis _
      refine (keeps_eat _).bind fun optional => ?_
      split
      · exact inductionHypothesis _
      refine tests_countFollows.keeps.bind fun follows => ?_
      split
      · exact keeps_readCount.bind fun bounds => inductionHypothesis _
      · exact keeps_pure _

end Pattern
end ParserGenerator
