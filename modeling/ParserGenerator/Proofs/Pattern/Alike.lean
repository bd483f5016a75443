import Mathlib.Data.List.Forall2
import ParserGenerator.Pattern

/-!
# Patterns that are alike

Two patterns are alike if they differ at most in how literal text is cut into
neighbouring pieces and in sequences and choices of one operand. Each pattern
has one form without these differences.
-/

namespace ParserGenerator
namespace Pattern

/-- The patterns differ at most in how literal text is cut into neighbouring
pieces and in sequences and choices of one operand. -/
inductive Alike : Pattern → Pattern → Prop
  | refl (pattern : Pattern) : Alike pattern pattern
  | symm {left right : Pattern} (alike : Alike left right) : Alike right left
  | trans
      {left middle right : Pattern}
      (first : Alike left middle)
      (second : Alike middle right) :
      Alike left right
  | joined
      (before : List Pattern)
      (left right : String)
      (after : List Pattern) :
      Alike (concat (before ++ text left :: text right :: after))
        (concat (before ++ text (left ++ right) :: after))
  | onlyItem (item : Pattern) : Alike (concat [item]) item
  | onlyBranch (branch : Pattern) : Alike (alternate [branch]) branch
  | inConcat
      {left right : Pattern}
      (before : List Pattern)
      (alike : Alike left right)
      (after : List Pattern) :
      Alike (concat (before ++ left :: after))
        (concat (before ++ right :: after))
  | inAlternate
      {left right : Pattern}
      (before : List Pattern)
      (alike : Alike left right)
      (after : List Pattern) :
      Alike (alternate (before ++ left :: after))
        (alternate (before ++ right :: after))
  | inRepeat
      {left right : Pattern}
      (alike : Alike left right)
      (repetition : Repetition) :
      Alike (.repeat left repetition) (.repeat right repetition)
  | inLookahead
      {left right : Pattern}
      (alike : Alike left right)
      (negated : Bool) :
      Alike (lookahead left negated) (lookahead right negated)

namespace Alike

variable {left right : Pattern} {lefts rights : List Pattern}

theorem concat
    (alike : List.Forall₂ Alike lefts rights)
    (before : List Pattern) :
    Alike (.concat (before ++ lefts)) (.concat (before ++ rights)) := by
  induction alike generalizing before with
  | nil => exact .refl _
  | @cons left right lefts rights first _ inductionHypothesis =>
      refine .trans (.inConcat before first lefts) ?_
      simpa using inductionHypothesis (before ++ [right])

theorem alternate
    (alike : List.Forall₂ Alike lefts rights)
    (before : List Pattern) :
    Alike (.alternate (before ++ lefts)) (.alternate (before ++ rights)) := by
  induction alike generalizing before with
  | nil => exact .refl _
  | @cons left right lefts rights first _ inductionHypothesis =>
      refine .trans (.inAlternate before first lefts) ?_
      simpa using inductionHypothesis (before ++ [right])

/-- A sequence is alike the list of its operands. -/
theorem sequence (items : List Pattern) :
    Alike (Pattern.sequence items) (.concat items) := by
  unfold Pattern.sequence
  split
  · exact .symm (.onlyItem _)
  · exact .refl _

/-- A choice is alike the list of its operands. -/
theorem choice (items : List Pattern) :
    Alike (Pattern.choice items) (.alternate items) := by
  unfold Pattern.choice
  split
  · exact .symm (.onlyBranch _)
  · exact .refl _

theorem sequence_congr
    (alike : List.Forall₂ Alike lefts rights) :
    Alike (Pattern.sequence lefts) (Pattern.sequence rights) :=
  .trans (.sequence lefts) (.trans (.concat alike [])
    (.symm (.sequence rights)))

theorem optionalCopies
    (alike : Alike left right)
    (count : Nat) :
    List.Forall₂ Alike (left.optionalCopies count).toList
      (right.optionalCopies count).toList := by
  induction count with
  | zero => exact .nil
  | succ count inductionHypothesis =>
      unfold Pattern.optionalCopies
      cases lefts : left.optionalCopies count with
      | none =>
          cases rights : right.optionalCopies count with
          | none => exact .cons (.inRepeat alike _) .nil
          | some tail =>
              rw [lefts, rights] at inductionHypothesis
              cases inductionHypothesis
      | some tail =>
          cases rights : right.optionalCopies count with
          | none =>
              rw [lefts, rights] at inductionHypothesis
              cases inductionHypothesis
          | some other =>
              rw [lefts, rights] at inductionHypothesis
              exact .cons (.inRepeat
                (.sequence_congr (.cons alike inductionHypothesis)) _) .nil

theorem unroll
    (alike : Alike left right)
    (least : Nat)
    (most : Option Nat) :
    Alike (left.unroll least most) (right.unroll least most) := by
  have copies : List.Forall₂ Alike (List.replicate least left)
      (List.replicate least right) := by
    induction least with
    | zero => exact .nil
    | succ least inductionHypothesis => exact .cons alike inductionHypothesis
  cases most with
  | none =>
      exact .sequence_congr
        (List.rel_append copies (.cons (.inRepeat alike _) .nil))
  | some most =>
      exact .sequence_congr
        (List.rel_append copies (alike.optionalCopies (most - least)))

end Alike

/-! ## Collapsed patterns -/

/-- Put an item in front of others, joining neighbouring texts. -/
def prepend (item : Pattern) (items : List Pattern) : List Pattern :=
  match item, items with
  | text added, text after :: rest => text (added ++ after) :: rest
  | item, items => item :: items

mutual

/-- The pattern with neighbouring texts joined, and operands that stand alone
for their sequence or choice. -/
def collapse : Pattern → Pattern
  | text content => text content
  | set characters => set characters
  | concat items => sequence (collapseItems items)
  | alternate branches => choice (collapseBranches branches)
  | .repeat item repetition => .repeat item.collapse repetition
  | lookahead condition negated => lookahead condition.collapse negated

/-- Collapsed operands of a sequence. -/
def collapseItems : List Pattern → List Pattern
  | [] => []
  | item :: rest => prepend item.collapse (collapseItems rest)

/-- Collapsed operands of a choice. -/
def collapseBranches : List Pattern → List Pattern
  | [] => []
  | branch :: rest => branch.collapse :: collapseBranches rest

end

theorem prepend_nil (item : Pattern) : prepend item [] = [item] := by
  cases item <;> rfl

theorem prepend_text_prepend (left right : String) (items : List Pattern) :
    prepend (text left) (prepend (text right) items) =
      prepend (text (left ++ right)) items := by
  rcases items with _ | ⟨first | _ | _ | _ | _ | _, rest⟩ <;>
    simp [prepend, String.append_assoc]

theorem Alike.prepend
    (before : List Pattern)
    (item : Pattern)
    (items : List Pattern) :
    Alike (.concat (before ++ item.prepend items))
      (.concat (before ++ item :: items)) := by
  unfold Pattern.prepend
  split
  · exact .symm (.joined before _ _ _)
  · exact .refl _

theorem collapseItems_append_congr
    {lefts rights : List Pattern}
    (same : collapseItems lefts = collapseItems rights)
    (before : List Pattern) :
    collapseItems (before ++ lefts) = collapseItems (before ++ rights) := by
  induction before with
  | nil => exact same
  | cons item before inductionHypothesis =>
      simp only [List.cons_append, collapseItems, inductionHypothesis]

theorem collapseBranches_eq_map (branches : List Pattern) :
    collapseBranches branches = branches.map collapse := by
  induction branches with
  | nil => rfl
  | cons branch rest inductionHypothesis =>
      rw [collapseBranches, inductionHypothesis, List.map_cons]

theorem Alike.collapse_eq
    {left right : Pattern}
    (alike : Alike left right) :
    left.collapse = right.collapse := by
  induction alike with
  | refl => rfl
  | symm _ same => exact same.symm
  | trans _ _ first second => exact first.trans second
  | joined before left right after =>
      rw [collapse, collapse, collapseItems_append_congr]
      simp only [collapseItems, collapse, prepend_text_prepend]
  | onlyItem item =>
      rw [collapse, collapseItems, collapseItems, prepend_nil, Pattern.sequence]
  | onlyBranch branch =>
      rw [collapse, collapseBranches, collapseBranches, Pattern.choice]
  | inConcat before _ after same =>
      rw [collapse, collapse, collapseItems_append_congr]
      rw [collapseItems, collapseItems, same]
  | inAlternate before _ after same =>
      simp only [collapse, collapseBranches_eq_map, List.map_append,
        List.map_cons, same]
  | inRepeat _ repetition same => rw [collapse, collapse, same]
  | inLookahead _ negated same => rw [collapse, collapse, same]

mutual

theorem alike_collapse : ∀ pattern : Pattern, Alike pattern.collapse pattern
  | text _ => .refl _
  | set _ => .refl _
  | concat items => by
      rw [collapse]
      exact (Alike.sequence _).trans (alike_collapseItems items [])
  | alternate branches => by
      rw [collapse]
      exact (Alike.choice _).trans (alike_collapseBranches branches [])
  | .repeat item repetition => by
      rw [collapse]
      exact .inRepeat (alike_collapse item) repetition
  | lookahead condition negated => by
      rw [collapse]
      exact .inLookahead (alike_collapse condition) negated

theorem alike_collapseItems :
    ∀ items before : List Pattern,
      Alike (concat (before ++ collapseItems items)) (concat (before ++ items))
  | [], _ => .refl _
  | item :: rest, before => by
      have first := Alike.inConcat before (alike_collapse item)
        (collapseItems rest)
      have others := alike_collapseItems rest (before ++ [item])
      simp only [List.append_assoc, List.singleton_append] at others
      rw [collapseItems]
      exact (Alike.prepend before _ _).trans (first.trans others)

theorem alike_collapseBranches :
    ∀ branches before : List Pattern,
      Alike (alternate (before ++ collapseBranches branches))
        (alternate (before ++ branches))
  | [], _ => .refl _
  | branch :: rest, before => by
      have first := Alike.inAlternate before (alike_collapse branch)
        (collapseBranches rest)
      have others := alike_collapseBranches rest (before ++ [branch])
      simp only [List.append_assoc, List.singleton_append] at others
      rw [collapseBranches]
      exact first.trans others

end

/-- Patterns are alike exactly if they collapse to the same pattern. -/
theorem alike_iff_collapse_eq {left right : Pattern} :
    Alike left right ↔ left.collapse = right.collapse := by
  refine ⟨Alike.collapse_eq, fun same => ?_⟩
  have middle := alike_collapse left
  rw [same] at middle
  exact middle.symm.trans (alike_collapse right)

end Pattern
end ParserGenerator
