import Mathlib.Data.List.Nodup
import Mathlib.Data.List.Perm.Subperm
import ParserGenerator.Ascending

/-!
# Ascending lists as sets

An ascending list without repetitions is determined by its members. Bringing
numbers into order and merging two such lists only changes the representation:
the members are those of the given lists. A set that grows gets longer, which
bounds how often sets of small numbers can grow.
-/

namespace ParserGenerator

/-! ## Lists in order -/

section Sorting

variable {Value : Type} {le : Value → Value → Bool}

theorem insertOrdered_perm (value : Value) (values : List Value) :
    (insertOrdered le value values).Perm (value :: values) := by
  induction values with
  | nil => exact .refl _
  | cons next rest inductionHypothesis =>
      rw [insertOrdered]
      split
      · exact .refl _
      · exact (inductionHypothesis.cons next).trans (.swap value next rest)

theorem foldr_insertOrdered_perm (left right : List Value) :
    (left.foldr (insertOrdered le) right).Perm (left ++ right) := by
  induction left with
  | nil => exact .refl _
  | cons value left inductionHypothesis =>
      exact (insertOrdered_perm value _).trans (inductionHypothesis.cons value)

theorem sortBy_perm (values : List Value) :
    (sortBy le values).Perm values := by
  have permuted : (values.foldr (insertOrdered le) []).Perm (values ++ []) :=
    foldr_insertOrdered_perm values []
  rwa [List.append_nil] at permuted

@[simp] theorem mem_sortBy {value : Value} {values : List Value} :
    value ∈ sortBy le values ↔ value ∈ values :=
  (sortBy_perm values).mem_iff

theorem pairwise_insertOrdered
    (transitive : ∀ first second third, le first second = true →
      le second third = true → le first third = true)
    (total : ∀ first second, (le first second || le second first) = true)
    (value : Value)
    {values : List Value}
    (ordered : values.Pairwise fun left right => le left right = true) :
    (insertOrdered le value values).Pairwise
      fun left right => le left right = true := by
  induction values with
  | nil => exact List.pairwise_singleton _ _
  | cons next rest inductionHypothesis =>
      obtain ⟨least, restOrdered⟩ := List.pairwise_cons.mp ordered
      rw [insertOrdered]
      split
      · next before =>
          refine List.pairwise_cons.mpr ⟨fun other member => ?_, ordered⟩
          rcases List.mem_cons.mp member with rfl | later
          · exact before
          · exact transitive _ _ _ before (least other later)
      · next notBefore =>
          have after : le next value = true := by
            have either := total value next
            rw [Bool.or_eq_true] at either
            exact either.resolve_left notBefore
          refine List.pairwise_cons.mpr ⟨fun other member => ?_,
            inductionHypothesis restOrdered⟩
          rcases List.mem_cons.mp ((insertOrdered_perm value rest).mem_iff.mp
            member) with rfl | later
          · exact after
          · exact least other later

theorem pairwise_foldr_insertOrdered
    (transitive : ∀ first second third, le first second = true →
      le second third = true → le first third = true)
    (total : ∀ first second, (le first second || le second first) = true)
    (left : List Value)
    {right : List Value}
    (ordered : right.Pairwise fun left right => le left right = true) :
    (left.foldr (insertOrdered le) right).Pairwise
      fun left right => le left right = true := by
  induction left with
  | nil => exact ordered
  | cons value left inductionHypothesis =>
      exact pairwise_insertOrdered transitive total value inductionHypothesis

end Sorting

/-! ## Ascending lists -/

/-- Each value is less than all that follow it. -/
def Ascends (values : List Nat) : Prop := values.Pairwise (· < ·)

namespace Ascends

theorem nil : Ascends [] := List.Pairwise.nil

theorem singleton (value : Nat) : Ascends [value] :=
  List.pairwise_singleton _ value

theorem nodup {values : List Nat} (ascends : Ascends values) : values.Nodup :=
  ascends.imp fun less => Nat.ne_of_lt less

/-- Ascending lists with the same members are equal. -/
theorem eq_of_mem_iff
    {left right : List Nat}
    (leftAscends : Ascends left)
    (rightAscends : Ascends right)
    (same : ∀ value, value ∈ left ↔ value ∈ right) :
    left = right := by
  have permuted : left.Perm right :=
    (List.perm_ext_iff_of_nodup leftAscends.nodup rightAscends.nodup).mpr same
  have antisymmetric : ∀ first second, first ∈ left → second ∈ right →
      first < second → second < first → first = second := by
    intro first second _ _ less greater
    omega
  exact permuted.eq_of_pairwise antisymmetric leftAscends rightAscends

/-- There are at most as many members as numbers below a common bound. -/
theorem length_le
    {values : List Nat}
    {bound : Nat}
    (ascends : Ascends values)
    (below : ∀ value ∈ values, value < bound) :
    values.length ≤ bound := by
  have subset : values ⊆ List.range bound := fun value member =>
    List.mem_range.mpr (below value member)
  simpa using (List.subperm_of_subset ascends.nodup subset).length_le

end Ascends

@[simp] theorem mem_dropRepeats {value : Nat} {values : List Nat} :
    value ∈ dropRepeats values ↔ value ∈ values := by
  fun_induction dropRepeats values with
  | case1 => rfl
  | case2 first => rfl
  | case3 first rest inductionHypothesis =>
      rw [inductionHypothesis]
      simp
  | case4 first next rest different inductionHypothesis =>
      simp only [List.mem_cons, inductionHypothesis]

theorem ascends_dropRepeats
    {values : List Nat}
    (ordered : values.Pairwise (· ≤ ·)) :
    Ascends (dropRepeats values) := by
  fun_induction dropRepeats values with
  | case1 => exact .nil
  | case2 first => exact .singleton first
  | case3 first rest inductionHypothesis =>
      exact inductionHypothesis ordered.of_cons
  | case4 first next rest different inductionHypothesis =>
      obtain ⟨least, restOrdered⟩ := List.pairwise_cons.mp ordered
      refine List.pairwise_cons.mpr ⟨fun value member => ?_,
        inductionHypothesis restOrdered⟩
      rw [mem_dropRepeats] at member
      have firstLess : first < next :=
        Nat.lt_of_le_of_ne (least next List.mem_cons_self) different
      have nextLeast : next ≤ value := by
        rcases List.mem_cons.mp member with same | later
        · exact Nat.le_of_eq same.symm
        · exact (List.pairwise_cons.mp restOrdered).1 value later
      omega

private theorem pairwise_le_of_decide
    {values : List Nat}
    (ordered : values.Pairwise fun left right => decide (left ≤ right) = true) :
    values.Pairwise (· ≤ ·) :=
  ordered.imp fun less => of_decide_eq_true less

/-- Numbers put into an ordered list leave it ordered. -/
theorem ascends_dropRepeats_foldr
    (left : List Nat)
    {right : List Nat}
    (ascends : Ascends right) :
    Ascends (dropRepeats (left.foldr (insertOrdered (· ≤ ·)) right)) := by
  refine ascends_dropRepeats (pairwise_le_of_decide ?_)
  refine pairwise_foldr_insertOrdered ?_ ?_ left
    (ascends.imp fun less => decide_eq_true (Nat.le_of_lt less))
  · intro first second third
    simp only [decide_eq_true_eq]
    omega
  · intro first second
    simp only [Bool.or_eq_true, decide_eq_true_eq]
    omega

@[simp] theorem mem_ascending {value : Nat} {values : List Nat} :
    value ∈ ascending values ↔ value ∈ values := by
  rw [ascending, mem_dropRepeats, mem_sortBy]

theorem ascends_ascending (values : List Nat) : Ascends (ascending values) :=
  ascends_dropRepeats_foldr values .nil

@[simp] theorem mem_mergeAscending {value : Nat} {left right : List Nat} :
    value ∈ mergeAscending left right ↔ value ∈ left ∨ value ∈ right := by
  rw [mergeAscending, mem_dropRepeats,
    (foldr_insertOrdered_perm left right).mem_iff, List.mem_append]

theorem ascends_mergeAscending
    (left : List Nat)
    {right : List Nat}
    (rightAscends : Ascends right) :
    Ascends (mergeAscending left right) :=
  ascends_dropRepeats_foldr left rightAscends

end ParserGenerator
