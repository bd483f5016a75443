import Mathlib.Logic.Relation
import ParserGenerator.Lexical.Automaton
import ParserGenerator.Proofs.CharSet

/-!
# What patterns match

The meaning of patterns, independent of any automaton. A pattern relates the
text ahead to the texts that may be left when it has matched at the front; a
condition looks at the text ahead and leaves it. From the spans of the
terminals follows what the longest match is: each terminal contributes the
lengths of its matches, a lazy one only its least length, and the greatest
length wins, at one length the first terminal.
-/

namespace ParserGenerator

/-- A code point outside the surrogate gap. -/
def IsScalar (point : Nat) : Prop :=
  point ≤ maxCodePoint ∧ isSurrogate point = false

variable [CharacterData]

namespace CharSet

/-- The set itself, or its closure if letters match in either case. -/
def inCase (anyCase : Bool) (set : CharSet) : CharSet :=
  if anyCase then set.toAnyCase else set

/-- The units at the front are those of one character of the set. -/
def Reads (set : CharSet) (before after : List CodeUnit) : Prop :=
  ∃ point, IsScalar point ∧ set.contains point = true ∧
    before = Text.encodePoint point ++ after

theorem normal_inCase
    {set : CharSet}
    (normal : set.Normal)
    (anyCase : Bool) :
    (set.inCase anyCase).Normal := by
  unfold inCase
  split
  · exact normal_toAnyCase normal
  · exact normal

end CharSet

namespace Pattern

omit [CharacterData] in
/-- Induction over patterns with a hypothesis for each operand. -/
theorem induction
    {motive : Pattern → Prop}
    (text : ∀ content, motive (text content))
    (set : ∀ characters, motive (set characters))
    (concat : ∀ items, (∀ item ∈ items, motive item) → motive (concat items))
    (alternate : ∀ items, (∀ item ∈ items, motive item) →
      motive (alternate items))
    (repeated : ∀ item repetition, motive item →
      motive (.repeat item repetition))
    (lookahead : ∀ condition negated, motive condition →
      motive (lookahead condition negated))
    (pattern : Pattern) :
    motive pattern :=
  @Pattern.rec motive (fun items => ∀ item ∈ items, motive item)
    text set concat alternate repeated lookahead
    (fun _ impossible => absurd impossible List.not_mem_nil)
    (fun _ _ first rest => List.forall_mem_cons.mpr ⟨first, rest⟩)
    pattern

/-- Characters one after the other. -/
def Spells (anyCase : Bool) :
    List Char → List CodeUnit → List CodeUnit → Prop
  | [], before, after => before = after
  | character :: rest, before, after =>
      ∃ middle,
        ((CharSet.single character.toNat).inCase anyCase).Reads before middle ∧
          Spells anyCase rest middle after

mutual

/-- With `before` ahead, the pattern matches the text up to `after`. -/
def Matches (anyCase : Bool) :
    Pattern → List CodeUnit → List CodeUnit → Prop
  | text content, before, after => Spells anyCase content.toList before after
  | set characters, before, after =>
      (characters.inCase anyCase).Reads before after
  | concat items, before, after => MatchesInTurn anyCase items before after
  | alternate items, before, after => MatchesOne anyCase items before after
  | .repeat item .zeroOrMore, before, after =>
      Relation.ReflTransGen (item.Matches anyCase) before after
  | .repeat item .oneOrMore, before, after =>
      Relation.TransGen (item.Matches anyCase) before after
  | .repeat item .optional, before, after =>
      Relation.ReflGen (item.Matches anyCase) before after
  | lookahead condition negated, before, after =>
      before = after ∧
        ((∃ rest, condition.Matches anyCase before rest) ↔ negated = false)

/-- Patterns one after the other. -/
def MatchesInTurn (anyCase : Bool) :
    List Pattern → List CodeUnit → List CodeUnit → Prop
  | [], before, after => before = after
  | item :: rest, before, after =>
      ∃ middle, item.Matches anyCase before middle ∧
        MatchesInTurn anyCase rest middle after

/-- One of some patterns. -/
def MatchesOne (anyCase : Bool) :
    List Pattern → List CodeUnit → List CodeUnit → Prop
  | [], _, _ => False
  | item :: rest, before, after =>
      item.Matches anyCase before after ∨ MatchesOne anyCase rest before after

end

theorem matchesOne_iff
    {anyCase : Bool}
    {items : List Pattern}
    {before after : List CodeUnit} :
    MatchesOne anyCase items before after ↔
      ∃ item ∈ items, item.Matches anyCase before after := by
  induction items with
  | nil => simp [MatchesOne]
  | cons item rest inductionHypothesis =>
      simp [MatchesOne, inductionHypothesis]

mutual

/-- All range lists of the pattern are in normal form. -/
def Normal : Pattern → Prop
  | text _ => True
  | set characters => characters.Normal
  | concat items => AllNormal items
  | alternate items => AllNormal items
  | .repeat item _ => item.Normal
  | lookahead condition _ => condition.Normal

/-- All range lists of some patterns are in normal form. -/
def AllNormal : List Pattern → Prop
  | [] => True
  | item :: rest => item.Normal ∧ AllNormal rest

end

omit [CharacterData] in
theorem allNormal_iff {items : List Pattern} :
    AllNormal items ↔ ∀ item ∈ items, item.Normal := by
  induction items with
  | nil => simp [AllNormal]
  | cons item rest inductionHypothesis =>
      rw [AllNormal, inductionHypothesis, List.forall_mem_cons]

end Pattern

namespace Lexical

variable (anyCase : Bool) (input : List CodeUnit)

/-- A pattern matches the given number of units at the front. -/
def Spans (pattern : Pattern) (length : Nat) : Prop :=
  length ≤ input.length ∧
    pattern.Matches anyCase input (input.drop length)

/-- A terminal offers a match of the given length: any of its matches, or the
shortest one if it is lazy. -/
def Contributes (terminals : List Terminal) (index length : Nat) : Prop :=
  ∃ terminal, terminals[index]? = some terminal ∧
    Spans anyCase input terminal.pattern length ∧
      (terminal.isLazy = true →
        ∀ shorter < length, ¬ Spans anyCase input terminal.pattern shorter)

/-- The longest of the matches offered, at one length that of the first
terminal. -/
def MaximalMunch (terminals : List Terminal) : Match → Prop
  | .found index length =>
      Contributes anyCase input terminals index length ∧
        ∀ other otherLength,
          Contributes anyCase input terminals other otherLength →
            otherLength < length ∨ otherLength = length ∧ index ≤ other
  | .noMatch =>
      ∀ index length, ¬ Contributes anyCase input terminals index length
  | .needMore => False

/-- There is only one maximal munch. -/
theorem MaximalMunch.unique
    {anyCase : Bool}
    {input : List CodeUnit}
    {terminals : List Terminal}
    {answer other : Match}
    (isAnswer : MaximalMunch anyCase input terminals answer)
    (isOther : MaximalMunch anyCase input terminals other) :
    answer = other := by
  cases answer with
  | needMore => exact isAnswer.elim
  | noMatch =>
      cases other with
      | needMore => exact isOther.elim
      | noMatch => rfl
      | found index length => exact absurd isOther.1 (isAnswer index length)
  | found index length =>
      cases other with
      | needMore => exact isOther.elim
      | noMatch => exact absurd isAnswer.1 (isOther index length)
      | found otherIndex otherLength =>
          have below := isAnswer.2 otherIndex otherLength isOther.1
          have above := isOther.2 index length isAnswer.1
          have sameIndex : index = otherIndex := by omega
          have sameLength : length = otherLength := by omega
          rw [sameIndex, sameLength]

end Lexical
end ParserGenerator
