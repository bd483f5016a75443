import ParserGenerator.Pattern.Reader
import ParserGenerator.Proofs.CharSet.Classes
import ParserGenerator.Proofs.Pattern.Alike

/-!
# Phrases of patterns

The grammar of patterns: branches divided by bars, each a sequence of atoms
with repetition marks. As for classes, a phrase is given by the text that
starts with it, what it stands for, and the text after it. What a phrase stands
for keeps the form of the text: one piece of literal text for each character, a
sequence for each branch and a choice for each list of branches.
-/

namespace ParserGenerator
namespace Pattern
namespace Phrase

/-! ## The grammar of patterns -/

/-- The text goes on with a brace and a digit, which open a count. -/
def OpensCount (text : List Char) : Prop :=
  text.head? = some '\x7b' ∧
    ∃ digit ∈ text[1]?, (Text.decimalDigit? digit).isSome = true

/-- The digits write a number that a count may have. -/
structure Count (digits : List Char) (count : Nat) : Prop where
  nonempty : digits ≠ []
  numeral : CharSet.numeral? 10 Text.decimalDigit? digits = some count
  limited : count ≤ countLimit

/-- A count between braces, with the least and the greatest number of
copies. -/
inductive Bounds : List Char → Nat → Option Nat → List Char → Prop
  | exactly
      {digits after : List Char}
      {count : Nat}
      (number : Count digits count) :
      Bounds ('\x7b' :: (digits ++ '\x7d' :: after)) count (some count) after
  | atLeast
      {digits after : List Char}
      {least : Nat}
      (number : Count digits least) :
      Bounds ('\x7b' :: (digits ++ ',' :: '\x7d' :: after)) least none after
  | between
      {lower upper after : List Char}
      {least most : Nat}
      (lowerNumber : Count lower least)
      (upperNumber : Count upper most)
      (ordered : least ≤ most) :
      Bounds ('\x7b' :: (lower ++ ',' :: (upper ++ '\x7d' :: after))) least
        (some most) after

/-- A repetition mark and what it makes of a pattern. -/
inductive Mark : List Char → (Pattern → Pattern) → List Char → Prop
  | star {after : List Char} :
      Mark ('*' :: after) (.repeat · .zeroOrMore) after
  | plus {after : List Char} :
      Mark ('+' :: after) (.repeat · .oneOrMore) after
  | optional {after : List Char} :
      Mark ('?' :: after) (.repeat · .optional) after
  | count
      {before after : List Char}
      {least : Nat}
      {most : Option Nat}
      (bounds : Bounds before least most after) :
      Mark before (unroll · least most) after

/-- All the repetition marks after an atom. A brace after them opens no
count. -/
inductive Marks : List Char → (Pattern → Pattern) → List Char → Prop
  | done {after : List Char} (ends : ¬ OpensCount after) : Marks after id after
  | more
      {before middle after : List Char}
      {mark others : Pattern → Pattern}
      (first : Mark before mark middle)
      (rest : Marks middle others after) :
      Marks before (others ∘ mark) after

/-- The start of a group. -/
inductive Opening : List Char → GroupKind → List Char → Prop
  | bare {after : List Char} : Opening ('(' :: after) .plain after
  | plain {after : List Char} :
      Opening ('(' :: '?' :: ':' :: after) .plain after
  | condition {after : List Char} :
      Opening ('(' :: '?' :: '=' :: after) (.condition false) after
  | negated {after : List Char} :
      Opening ('(' :: '?' :: '!' :: after) (.condition true) after

/-- The characters that do not stand for themselves. Brackets and braces that
close, and braces that open no count, do. -/
def reserved : List Char := ['|', '(', ')', '[', '.', '*', '+', '?', '\\']

variable [CharacterData]

mutual

/-- Branches divided by bars. -/
inductive Branches : List Char → List Pattern → List Char → Prop
  | last
      {before after : List Char}
      {items : List Pattern}
      (branch : Items before items after) :
      Branches before [concat items] after
  | more
      {before middle after : List Char}
      {items others : List Pattern}
      (branch : Items before items ('|' :: middle))
      (rest : Branches middle others after) :
      Branches before (concat items :: others) after

/-- Atoms one after the other, each with its repetition marks. -/
inductive Items : List Char → List Pattern → List Char → Prop
  | done {after : List Char} : Items after [] after
  | more
      {before middle next after : List Char}
      {atom : Pattern}
      {marks : Pattern → Pattern}
      {others : List Pattern}
      (first : Atom before atom middle)
      (marked : Marks middle marks next)
      (rest : Items next others after) :
      Items before (marks atom :: others) after

/-- A character, an escape, the dot, a class or a group. -/
inductive Atom : List Char → Pattern → List Char → Prop
  | literal
      {character : Char}
      {after : List Char}
      (bare : character ∉ reserved) :
      Atom (character :: after) (literal character) after
  | codePoint
      {before after : List Char}
      {point : Nat}
      (escape : CharSet.Phrase.Escape before (.character point) after) :
      Atom ('\\' :: before) (ofCodePoint point) after
  | set
      {before after : List Char}
      {characters : CharSet}
      (escape : CharSet.Phrase.Escape before (.set characters) after) :
      Atom ('\\' :: before) (set characters) after
  | dot {after : List Char} : Atom ('.' :: after) dot after
  | bracketed
      {before after : List Char}
      {characters : CharSet}
      (phrase : CharSet.Phrase.Class before characters after) :
      Atom before (Pattern.set characters) after
  | group
      {before middle after : List Char}
      {kind : GroupKind}
      {branches : List Pattern}
      (opening : Opening before kind middle)
      (inner : Branches middle branches (')' :: after)) :
      Atom before (kind.wrap (alternate branches)) after

end

/-! ## Marks -/

omit [CharacterData] in
theorem Mark.congr
    {before after : List Char}
    {mark : Pattern → Pattern}
    {left right : Pattern}
    (phrase : Mark before mark after)
    (alike : Alike left right) :
    Alike (mark left) (mark right) := by
  cases phrase with
  | star | plus | optional => exact .inRepeat alike _
  | count => exact alike.unroll _ _

omit [CharacterData] in
theorem Marks.congr
    {before after : List Char}
    {marks : Pattern → Pattern}
    {left right : Pattern}
    (phrase : Marks before marks after)
    (alike : Alike left right) :
    Alike (marks left) (marks right) := by
  induction phrase generalizing left right with
  | done => exact alike
  | more first _ inductionHypothesis =>
      exact inductionHypothesis (first.congr alike)

/-! ## Lengths -/

omit [CharacterData] in
theorem Bounds.length_lt
    {before after : List Char}
    {least : Nat}
    {most : Option Nat}
    (phrase : Bounds before least most after) :
    after.length < before.length := by
  cases phrase <;> simp only [List.length_cons, List.length_append] <;> omega

omit [CharacterData] in
theorem Mark.length_lt
    {before after : List Char}
    {mark : Pattern → Pattern}
    (phrase : Mark before mark after) :
    after.length < before.length := by
  cases phrase with
  | star | plus | optional => exact Nat.lt_succ_self _
  | count bounds => exact bounds.length_lt

omit [CharacterData] in
theorem Marks.length_le
    {before after : List Char}
    {marks : Pattern → Pattern}
    (phrase : Marks before marks after) :
    after.length ≤ before.length := by
  induction phrase with
  | done => exact Nat.le_refl _
  | more first _ shorter =>
      exact Nat.le_trans shorter (Nat.le_of_lt first.length_lt)

omit [CharacterData] in
theorem Opening.length_lt
    {before after : List Char}
    {kind : GroupKind}
    (phrase : Opening before kind after) :
    after.length < before.length := by
  cases phrase <;> simp only [List.length_cons] <;> omega

mutual

theorem Branches.length_le :
    ∀ {before after : List Char} {branches : List Pattern},
      Branches before branches after → after.length ≤ before.length
  | _, _, _, .last branch => branch.length_le
  | _, _, _, .more branch rest =>
      Nat.le_trans rest.length_le (Nat.le_of_succ_le branch.length_le)

theorem Items.length_le :
    ∀ {before after : List Char} {items : List Pattern},
      Items before items after → after.length ≤ before.length
  | _, _, _, .done => Nat.le_refl _
  | _, _, _, .more first marked rest =>
      Nat.le_trans rest.length_le
        (Nat.le_trans marked.length_le (Nat.le_of_lt first.length_lt))

theorem Atom.length_lt :
    ∀ {before after : List Char} {atom : Pattern},
      Atom before atom after → after.length < before.length
  | _, _, _, .literal _ => Nat.lt_succ_self _
  | _, _, _, .codePoint escape => Nat.lt_succ_of_lt escape.length_lt
  | _, _, _, .set escape => Nat.lt_succ_of_lt escape.length_lt
  | _, _, _, .dot => Nat.lt_succ_self _
  | _, _, _, .bracketed phrase => phrase.length_lt
  | _, _, _, .group opening inner =>
      Nat.lt_trans (Nat.lt_of_succ_le inner.length_le) opening.length_lt

end

/-! ## Starts -/

/-- The characters that an atom does not start with, unless escaped. -/
def dividers : List Char := ['|', ')', '*', '+', '?']

theorem Atom.exists_start
    {before after : List Char}
    {atom : Pattern}
    (phrase : Atom before atom after) :
    ∃ character rest, before = character :: rest ∧
      character ∉ dividers := by
  cases phrase with
  | literal bare =>
      refine ⟨_, _, rfl, fun member => bare ?_⟩
      exact (by decide : dividers ⊆ reserved) member
  | codePoint | set | dot => exact ⟨_, _, rfl, by decide⟩
  | bracketed phrase =>
      obtain ⟨rest, rfl⟩ := List.head?_eq_some_iff.mp phrase.head?_eq
      exact ⟨_, _, rfl, by decide⟩
  | group opening => cases opening <;> exact ⟨_, _, rfl, by decide⟩

/-- No repetition mark of one character comes next. -/
def Unmarked (text : List Char) : Prop :=
  ∀ character ∈ text.head?, character ∉ ['*', '+', '?']

/-- A branch may end here. -/
def EndsBranch (text : List Char) : Prop :=
  ∀ character ∈ text.head?, character = '|' ∨ character = ')'

/-- A list of branches may end here. -/
def EndsBranches (text : List Char) : Prop :=
  ∀ character ∈ text.head?, character = ')'

omit [CharacterData] in
theorem EndsBranches.endsBranch
    {text : List Char}
    (ends : EndsBranches text) :
    EndsBranch text :=
  fun character isNext => .inr (ends character isNext)

theorem Items.unmarked
    {before after : List Char}
    {items : List Pattern}
    (phrase : Items before items after)
    (ends : EndsBranch after) :
    Unmarked before := by
  intro character isNext
  cases phrase with
  | done => rcases ends character isNext with rfl | rfl <;> decide
  | more first =>
      obtain ⟨start, rest, rfl, notDivider⟩ := first.exists_start
      cases isNext
      exact fun member =>
        notDivider ((by decide : ['*', '+', '?'] ⊆ dividers) member)

theorem Branches.unmarked
    {before after : List Char}
    {branches : List Pattern}
    (phrase : Branches before branches after)
    (ends : EndsBranch after) :
    Unmarked before := by
  cases phrase with
  | last branch => exact branch.unmarked ends
  | more branch => exact branch.unmarked (by simp [EndsBranch])

end Phrase
end Pattern
end ParserGenerator
