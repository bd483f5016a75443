import Mathlib.Data.List.TakeWhile
import ParserGenerator.Definition

/-!
# Lines and sections

Text is cut at single characters and put together again, white space at its
ends is dropped, and the lines of a definition are divided into its sections.
-/

namespace ParserGenerator

namespace Text

theorem splitAt_of_notMem
    {separator : Char}
    {characters : List Char}
    (absent : separator ∉ characters) :
    splitAt separator characters = [characters] := by
  induction characters with
  | nil => rfl
  | cons character rest inductionHypothesis =>
      rw [List.mem_cons, not_or] at absent
      rw [splitAt, if_neg (Ne.symm absent.1), inductionHypothesis absent.2]

theorem splitAt_append
    {separator : Char}
    {part : List Char}
    (absent : separator ∉ part)
    (rest : List Char) :
    splitAt separator (part ++ separator :: rest) =
      part :: splitAt separator rest := by
  induction part with
  | nil => rw [List.nil_append, splitAt, if_pos rfl]
  | cons character part inductionHypothesis =>
      rw [List.mem_cons, not_or] at absent
      rw [List.cons_append, splitAt, if_neg (Ne.symm absent.1),
        inductionHypothesis absent.2]

/-- Parts that are put together are found again. -/
theorem splitAt_intercalate
    {separator : Char}
    {parts : List (List Char)}
    (nonempty : parts ≠ [])
    (absent : ∀ part ∈ parts, separator ∉ part) :
    splitAt separator ([separator].intercalate parts) = parts := by
  induction parts with
  | nil => exact absurd rfl nonempty
  | cons part rest inductionHypothesis =>
      have absentHere := absent part List.mem_cons_self
      cases rest with
      | nil =>
          rw [List.intercalate_singleton]
          exact splitAt_of_notMem absentHere
      | cons next rest =>
          rw [List.intercalate_cons_cons, List.append_assoc,
            List.singleton_append, splitAt_append absentHere,
            inductionHypothesis (List.cons_ne_nil _ _) fun other member =>
              absent other (List.mem_cons_of_mem _ member)]

/-! ## White space at the ends -/

/-- There is no white space at either end. -/
structure Tight (characters : List Char) : Prop where
  /-- The first character is not blank. -/
  first : ∀ character ∈ characters.head?, isBlank character = false
  /-- The last character is not blank. -/
  last : ∀ character ∈ characters.getLast?, isBlank character = false

variable {before content after : List Char}

/-- Blank characters at the front are dropped up to the first one that is not
blank. -/
theorem dropWhile_isBlank_append
    (blank : ∀ character ∈ before, isBlank character = true)
    (firstNotBlank : ∀ character ∈ content.head?, isBlank character = false) :
    (before ++ content).dropWhile isBlank = content := by
  rw [List.dropWhile_append_of_pos blank]
  cases content with
  | nil => rfl
  | cons character rest =>
      rw [List.dropWhile_cons_of_neg]
      simp [firstNotBlank character rfl]

theorem dropBlankEnd_of_blank
    (blank : ∀ character ∈ after, isBlank character = true) :
    dropBlankEnd after = [] := by
  have reversed : ∀ character ∈ after.reverse, isBlank character = true :=
    fun character member => blank character (List.mem_reverse.mp member)
  rw [dropBlankEnd, List.dropWhile_eq_nil_iff.mpr reversed, List.reverse_nil]

/-- What ends with a character that is not blank stays. -/
theorem dropBlankEnd_append
    (lastNotBlank : ∀ character ∈ content.getLast?,
      isBlank character = false)
    (after : List Char) :
    dropBlankEnd (content ++ after) = content ++ dropBlankEnd after := by
  rw [dropBlankEnd, dropBlankEnd, List.reverse_append]
  by_cases allBlank : ∀ character ∈ after.reverse, isBlank character = true
  · have reversedFirst : ∀ character ∈ content.reverse.head?,
        isBlank character = false := by
      rw [List.head?_reverse]
      exact lastNotBlank
    rw [dropWhile_isBlank_append allBlank reversedFirst,
      List.dropWhile_eq_nil_iff.mpr allBlank]
    simp
  · have someLeft : (after.reverse.dropWhile isBlank).isEmpty = false := by
      rw [List.isEmpty_eq_false_iff, ne_eq, List.dropWhile_eq_nil_iff]
      exact allBlank
    rw [List.dropWhile_append, someLeft]
    simp

/-- White space around a text is dropped. -/
theorem trimmed_padded
    (blankBefore : ∀ character ∈ before, isBlank character = true)
    (blankAfter : ∀ character ∈ after, isBlank character = true)
    (tight : Tight content) :
    trimmed (before ++ (content ++ after)) = content := by
  rw [trimmed, List.dropWhile_append_of_pos blankBefore]
  cases content with
  | nil =>
      rw [List.nil_append, List.dropWhile_eq_nil_iff.mpr blankAfter]
      rfl
  | cons character rest =>
      have notBlank := tight.first character rfl
      rw [List.cons_append, List.dropWhile_cons_of_neg (by simp [notBlank]),
        ← List.cons_append,
        dropBlankEnd_append tight.last,
        dropBlankEnd_of_blank blankAfter, List.append_nil]

/-- Nothing is left to be dropped. -/
theorem tight_trimmed (characters : List Char) : Tight (trimmed characters) := by
  have headNotBlank (others : List Char) :
      ∀ character ∈ (others.dropWhile isBlank).head?,
        isBlank character = false := by
    intro character isHead
    have found := List.head?_dropWhile_not isBlank others
    rw [Option.mem_def.mp isHead] at found
    simpa using found
  constructor
  · have kept : trimmed characters <+: characters.dropWhile isBlank := by
      rw [trimmed, dropBlankEnd, ← List.reverse_suffix, List.reverse_reverse]
      exact List.dropWhile_suffix _
    obtain ⟨rest, split⟩ := kept
    intro character isHead
    refine headNotBlank characters character ?_
    rw [← split, List.head?_append, Option.mem_def.mp isHead]
    rfl
  · rw [trimmed, dropBlankEnd, List.getLast?_reverse]
    exact headNotBlank _

end Text

namespace Definition

/-- Steps one after the other, where the first one succeeds. -/
theorem bind_of_ok
    {Error First Second : Type}
    {step : Except Error First}
    {next : First → Except Error Second}
    {value : First}
    {result : Except Error Second}
    (first : step = .ok value)
    (second : next value = result) :
    (step >>= next) = result := by
  rw [first]
  exact second

/-- The sections are what stands around the first dividing line. -/
theorem splitSections_append
    {before after : List (List Char)}
    {divider : List Char}
    (number : Nat)
    (undivided : ∀ line ∈ before, Text.trimmed line ≠ ['%', '%'])
    (divides : Text.trimmed divider = ['%', '%']) :
    splitSections number (before ++ divider :: after) =
      .ok (before, after, number + before.length + 1) := by
  induction before generalizing number with
  | nil =>
      rw [List.nil_append, splitSections, if_pos divides]
      rfl
  | cons line before inductionHypothesis =>
      rw [List.cons_append, splitSections,
        if_neg (undivided line List.mem_cons_self),
        inductionHypothesis (number + 1) fun other member =>
          undivided other (List.mem_cons_of_mem _ member)]
      have counted : number + 1 + before.length + 1 =
          number + (line :: before).length + 1 := by
        rw [List.length_cons]
        omega
      rw [← counted]
      rfl

end Definition
end ParserGenerator
