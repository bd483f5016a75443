import ParserGenerator.Proofs.Ascending

/-!
# Families of sets

An array of ascending lists is a family of sets of numbers. Sets that are
extended within a bound stay regular, and a regular family is determined by
the members of its sets.
-/

namespace ParserGenerator

/-- The set at an index, which is empty where there is none. -/
def setAt (family : Array (List Nat)) (index : Nat) : List Nat :=
  family[index]?.getD []

/-- Extending one set adds nothing to the others. -/
theorem mem_setAt_modify
    {family : Array (List Nat)}
    {index other value : Nat}
    {values : List Nat} :
    value ∈ setAt (family.modify index (mergeAscending · values)) other ↔
      value ∈ setAt family other ∨
        index = other ∧ other < family.size ∧ value ∈ values := by
  simp only [setAt, Array.getElem?_modify]
  by_cases same : index = other
  · by_cases inside : other < family.size
    · simp [same, inside]
    · simp [same, inside]
  · simp [same]

theorem lt_size_of_mem_setAt
    {family : Array (List Nat)}
    {index value : Nat}
    (member : value ∈ setAt family index) :
    index < family.size := by
  refine Nat.lt_of_not_le fun outside => ?_
  simp [setAt, outside] at member

/-- Sets of small numbers in order, as many as there should be. -/
structure RegularFamily (count bound : Nat) (family : Array (List Nat)) :
    Prop where
  /-- The number of sets. -/
  size : family.size = count
  /-- The sets are in order. -/
  ascends : ∀ index, Ascends (setAt family index)
  /-- The members are small. -/
  below : ∀ index, ∀ value ∈ setAt family index, value < bound

namespace RegularFamily

variable {count bound : Nat} {family : Array (List Nat)}

theorem extend
    (regular : RegularFamily count bound family)
    (index : Nat)
    {values : List Nat}
    (ascends : Ascends values)
    (below : ∀ value ∈ values, value < bound) :
    RegularFamily count bound
      (family.modify index (mergeAscending · values)) where
  size := by rw [Array.size_modify, regular.size]
  ascends other := by
    have before := regular.ascends other
    simp only [setAt, Array.getElem?_modify] at before ⊢
    split
    · cases found : family[other]? with
      | none => exact .nil
      | some set => exact ascends_mergeAscending set ascends
    · exact before
  below other value member := by
    rcases mem_setAt_modify.mp member with earlier | ⟨-, -, added⟩
    · exact regular.below other value earlier
    · exact below value added

/-- Families with the same members are equal. -/
theorem eq_of_mem_iff
    {left right : Array (List Nat)}
    (leftRegular : RegularFamily count bound left)
    (rightRegular : RegularFamily count bound right)
    (same : ∀ index value, value ∈ setAt left index ↔
      value ∈ setAt right index) :
    left = right := by
  refine Array.ext (leftRegular.size.trans rightRegular.size.symm)
    fun index leftInside rightInside => ?_
  have sameSet := (leftRegular.ascends index).eq_of_mem_iff
    (rightRegular.ascends index) (same index)
  simpa [setAt, leftInside, rightInside] using sameSet

end RegularFamily

theorem regularFamily_empty (count bound : Nat) :
    RegularFamily count bound (Array.replicate count []) := by
  have empty : ∀ index, setAt (Array.replicate count []) index = [] := by
    intro index
    simp only [setAt, Array.getElem?_replicate]
    split <;> rfl
  refine ⟨by simp, fun index => ?_, fun index value member => ?_⟩
  · rw [empty]
    exact .nil
  · rw [empty] at member
    simp at member

end ParserGenerator
