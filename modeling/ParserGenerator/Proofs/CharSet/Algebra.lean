import ParserGenerator.Proofs.CharSet

/-!
# The algebra of character sets

Union, intersection, difference and complement of sets with chains of
exclusions of any depth. Union and difference call each other along the chains
of both sets; every such computation ends, and its result has exactly the
members that the operation stands for.
-/

namespace ParserGenerator

namespace RangeList

variable {set : RangeList} {point : Nat}

theorem normal_all : all.Normal := by
  refine ⟨by decide, ?_⟩
  decide

theorem contains_all (known : point ≤ maxCodePoint) :
    all.contains point = !isSurrogate point := by
  rw [Bool.eq_iff_iff, contains_iff, Bool.not_eq_true', ← Bool.not_eq_true,
    isSurrogate_iff]
  simp only [all, covers_cons, not_covers_nil, or_false, surrogateFirst,
    surrogateLast, maxCodePoint] at known ⊢
  omega

/-- The complement has the code points outside the gap that the set lacks. -/
theorem contains_negate
    (normal : set.Normal)
    (known : point ≤ maxCodePoint) :
    set.negate.contains point =
      (!isSurrogate point && !set.contains point) := by
  rw [negate, contains_subtract normal_all normal, contains_all known]

theorem normal_negate (normal : set.Normal) : set.negate.Normal :=
  normal_subtract normal_all normal

theorem contains_of_isEmpty
    (isEmpty : set.isEmpty = true)
    (point : Nat) :
    set.contains point = false := by
  have noRanges : set.ranges = [] := List.isEmpty_iff.mp isEmpty
  rw [contains, noRanges, List.any_nil]

end RangeList

theorem Categories.contains_negate {set : Categories} {category : Category} :
    set.negate.contains category = !set.contains category := by
  simp [contains, negate, category.index_lt]

variable [CharacterData] {point : Nat}

/-- Among the code points, those of a set of categories are known by their
category. -/
theorem Categories.contains_codePoints_of_le
    (set : Categories)
    (known : point ≤ maxCodePoint) :
    set.codePoints.contains point = set.contains (Category.of point) := by
  rw [Bool.eq_iff_iff, contains_codePoints]
  exact and_iff_right known

namespace Members

variable {left right : Members}

theorem contains_union
    (leftNormal : left.ranges.Normal)
    (rightNormal : right.ranges.Normal) :
    (left.union right).contains point =
      (left.contains point || right.contains point) := by
  rw [union, contains, RangeList.contains_union leftNormal rightNormal,
    Categories.contains_union, contains, contains]
  ac_rfl

/-- What ranges share with listed categories, added to what they share with
other ranges; nothing is added if no category is listed. -/
theorem contains_addShared
    {ranges shared : RangeList}
    {categories : Categories}
    (normal : ranges.Normal)
    (sharedNormal : shared.Normal)
    (known : point ≤ maxCodePoint) :
    (if categories.isEmpty then
        shared
      else
        shared.union (ranges.intersect categories.codePoints)).contains point =
      (shared.contains point ||
        (ranges.contains point && categories.contains (Category.of point))) := by
  split
  · next noCategories =>
      rw [Categories.isEmpty_iff.mp noCategories, Bool.and_false,
        Bool.or_false]
  · rw [RangeList.contains_union sharedNormal
        (RangeList.normal_intersect normal Categories.normal_codePoints),
      RangeList.contains_intersect normal Categories.normal_codePoints,
      categories.contains_codePoints_of_le known]

theorem normal_addShared
    {ranges shared : RangeList}
    {categories : Categories}
    (normal : ranges.Normal)
    (sharedNormal : shared.Normal) :
    (if categories.isEmpty then
        shared
      else
        shared.union (ranges.intersect categories.codePoints)).Normal := by
  split
  · exact sharedNormal
  · exact RangeList.normal_union sharedNormal
      (RangeList.normal_intersect normal Categories.normal_codePoints)

theorem normal_intersect
    (leftNormal : left.ranges.Normal)
    (rightNormal : right.ranges.Normal) :
    (left.intersect right).ranges.Normal :=
  normal_addShared rightNormal <| normal_addShared leftNormal <|
    RangeList.normal_intersect leftNormal rightNormal

theorem contains_intersect
    (leftNormal : left.ranges.Normal)
    (rightNormal : right.ranges.Normal)
    (known : point ≤ maxCodePoint) :
    (left.intersect right).contains point =
      (left.contains point && right.contains point) := by
  have bothNormal : (left.ranges.intersect right.ranges).Normal :=
    RangeList.normal_intersect leftNormal rightNormal
  rw [intersect, contains, contains_addShared rightNormal
      (normal_addShared leftNormal bothNormal) known,
    contains_addShared leftNormal bothNormal known,
    RangeList.contains_intersect leftNormal rightNormal,
    Categories.contains_intersect, contains, contains]
  cases left.ranges.contains point <;> cases right.ranges.contains point <;>
    cases left.categories.contains (Category.of point) <;> simp

end Members

namespace CharSet

variable {left right set : CharSet}

/-! ## Computations -/

/-- The operations on two sets. -/
inductive Operation
  | union
  | intersect
  | subtract

/-- How an operation on two sets is carried out: a rule for each case, whose
premise is the operation that it calls. -/
inductive Computes : Operation → CharSet → CharSet → CharSet → Prop
  | unionPlain (listed added : Members) :
      Computes .union (plain listed) (plain added)
        (plain (listed.union added))
  | unionExcept
      {listed added : Members}
      {excluded remaining : CharSet}
      (called : Computes .subtract excluded (plain added) remaining) :
      Computes .union (except listed excluded) (plain added)
        (minus (listed.union added) remaining)
  | unionWithExcept
      {listed added : Members}
      {excluded remaining : CharSet}
      (called : Computes .subtract excluded (plain added) remaining) :
      Computes .union (plain added) (except listed excluded)
        (minus (listed.union added) remaining)
  | unionFlattened (listed added : Members) (first second : CharSet) :
      Computes .union (except listed first) (except added second)
        (ofRanges ((except listed first).flatten.union
          (except added second).flatten))
  | subtractNothing
      (left : CharSet)
      {right : CharSet}
      (isEmpty : right.isEmpty = true) :
      Computes .subtract left right left
  | subtractPlain
      (listed : Members)
      {right : CharSet}
      (nonempty : right.isEmpty = false) :
      Computes .subtract (plain listed) right (minus listed right)
  | subtractExcept
      {listed : Members}
      {excluded right both : CharSet}
      (nonempty : right.isEmpty = false)
      (called : Computes .union excluded right both) :
      Computes .subtract (except listed excluded) right (minus listed both)
  | intersectPlain (listed shared : Members) :
      Computes .intersect (plain listed) (plain shared)
        (plain (listed.intersect shared))
  | intersectExcept (listed shared : Members) (excluded : CharSet) :
      Computes .intersect (except listed excluded) (plain shared)
        (minus (listed.intersect shared) excluded)
  | intersectWithExcept (listed shared : Members) (excluded : CharSet) :
      Computes .intersect (plain listed) (except shared excluded)
        (minus (listed.intersect shared) excluded)
  | intersectBoth
      {listed shared : Members}
      {first second both : CharSet}
      (called : Computes .union first second both) :
      Computes .intersect (except listed first) (except shared second)
        (minus (listed.intersect shared) both)

/-- Adding and removing members go down the chain of exclusions in turn, so
they reach its end. -/
theorem computes_members (set : CharSet) (listed : Members) :
    Computes .union set (plain listed) (set.unionMembers listed) ∧
      Computes .subtract set (plain listed) (set.subtractMembers listed) := by
  induction set with
  | plain members =>
      refine ⟨.unionPlain members listed, ?_⟩
      unfold subtractMembers
      split
      · next isEmpty => exact .subtractNothing _ isEmpty
      · next nonempty =>
          exact .subtractPlain members (Bool.eq_false_iff.mpr nonempty)
  | except members excluded inductionHypothesis =>
      obtain ⟨unions, subtracts⟩ := inductionHypothesis
      refine ⟨.unionExcept subtracts, ?_⟩
      unfold subtractMembers
      split
      · next isEmpty => exact .subtractNothing _ isEmpty
      · next nonempty =>
          exact .subtractExcept (Bool.eq_false_iff.mpr nonempty) unions

/-- A union ends. -/
theorem computes_union (left right : CharSet) :
    Computes .union left right (left.union right) := by
  cases right with
  | plain added => exact (computes_members left added).1
  | except added second =>
      cases left with
      | plain listed => exact .unionWithExcept (computes_members second listed).2
      | except listed first => exact .unionFlattened listed added first second

/-- A difference ends. -/
theorem computes_subtract (left right : CharSet) :
    Computes .subtract left right (left.subtract right) := by
  unfold subtract
  split
  · next isEmpty => exact .subtractNothing left isEmpty
  · next nonempty =>
      have notEmpty : right.isEmpty = false := Bool.eq_false_iff.mpr nonempty
      cases left with
      | plain listed => exact .subtractPlain listed notEmpty
      | except listed excluded =>
          exact .subtractExcept notEmpty (computes_union excluded right)

/-- An intersection ends. -/
theorem computes_intersect (left right : CharSet) :
    Computes .intersect left right (left.intersect right) := by
  cases left with
  | plain listed =>
      cases right with
      | plain shared => exact .intersectPlain listed shared
      | except shared excluded => exact .intersectWithExcept listed shared excluded
  | except listed first =>
      cases right with
      | plain shared => exact .intersectExcept listed shared first
      | except shared second => exact .intersectBoth (computes_union first second)

/-! ## Members of the results -/

/-- What an operation makes of the answers of two sets about a point. -/
def Operation.combine : Operation → Bool → Bool → Bool
  | .union, inLeft, inRight => inLeft || inRight
  | .intersect, inLeft, inRight => inLeft && inRight
  | .subtract, inLeft, inRight => inLeft && !inRight

omit [CharacterData] in
theorem normal_minus
    {members : Members}
    {excluded : CharSet}
    (normal : members.ranges.Normal)
    (excludedNormal : excluded.Normal) :
    (minus members excluded).Normal := by
  unfold minus
  split
  · exact normal
  · exact ⟨normal, excludedNormal⟩

/-- The result of an operation on sets in normal form is in normal form. -/
theorem Computes.normal
    {operation : Operation}
    {result : CharSet}
    (computes : Computes operation left right result)
    (leftNormal : left.Normal)
    (rightNormal : right.Normal) :
    result.Normal := by
  induction computes with
  | unionPlain listed added =>
      exact RangeList.normal_union leftNormal rightNormal
  | unionExcept called inductionHypothesis =>
      exact normal_minus (RangeList.normal_union leftNormal.1 rightNormal)
        (inductionHypothesis leftNormal.2 rightNormal)
  | unionWithExcept called inductionHypothesis =>
      exact normal_minus (RangeList.normal_union rightNormal.1 leftNormal)
        (inductionHypothesis rightNormal.2 leftNormal)
  | unionFlattened listed added first second =>
      exact RangeList.normal_union (normal_flatten leftNormal)
        (normal_flatten rightNormal)
  | subtractNothing left isEmpty => exact leftNormal
  | subtractPlain listed nonempty => exact normal_minus leftNormal rightNormal
  | subtractExcept nonempty called inductionHypothesis =>
      exact normal_minus leftNormal.1
        (inductionHypothesis leftNormal.2 rightNormal)
  | intersectPlain listed shared =>
      exact Members.normal_intersect leftNormal rightNormal
  | intersectExcept listed shared excluded =>
      exact normal_minus (Members.normal_intersect leftNormal.1 rightNormal)
        leftNormal.2
  | intersectWithExcept listed shared excluded =>
      exact normal_minus (Members.normal_intersect leftNormal rightNormal.1)
        rightNormal.2
  | intersectBoth called inductionHypothesis =>
      exact normal_minus (Members.normal_intersect leftNormal.1 rightNormal.1)
        (inductionHypothesis leftNormal.2 rightNormal.2)

/-- The result of an operation has the members that the operation stands
for. -/
theorem Computes.contains
    {operation : Operation}
    {result : CharSet}
    (computes : Computes operation left right result)
    (leftNormal : left.Normal)
    (rightNormal : right.Normal)
    (known : point ≤ maxCodePoint) :
    result.contains point =
      operation.combine (left.contains point) (right.contains point) := by
  induction computes with
  | unionPlain listed added =>
      exact Members.contains_union leftNormal rightNormal
  | @unionExcept listed added excluded remaining called inductionHypothesis =>
      rw [contains_minus, Members.contains_union leftNormal.1 rightNormal,
        inductionHypothesis leftNormal.2 rightNormal]
      simp only [Operation.combine, CharSet.contains]
      cases added.contains point <;> simp
  | @unionWithExcept listed added excluded remaining called
      inductionHypothesis =>
      rw [contains_minus, Members.contains_union rightNormal.1 leftNormal,
        inductionHypothesis rightNormal.2 leftNormal]
      simp only [Operation.combine, CharSet.contains]
      cases added.contains point <;> simp
  | unionFlattened listed added first second =>
      rw [contains_ofRanges, RangeList.contains_union
        (normal_flatten leftNormal) (normal_flatten rightNormal),
        contains_flatten leftNormal known, contains_flatten rightNormal known]
      rfl
  | subtractNothing left isEmpty =>
      simp [Operation.combine, contains_of_isEmpty isEmpty]
  | subtractPlain listed nonempty =>
      rw [contains_minus]
      rfl
  | subtractExcept nonempty called inductionHypothesis =>
      rw [contains_minus, inductionHypothesis leftNormal.2 rightNormal]
      simp only [Operation.combine, CharSet.contains, Bool.not_or,
        Bool.and_assoc]
  | intersectPlain listed shared =>
      exact Members.contains_intersect leftNormal rightNormal known
  | intersectExcept listed shared excluded =>
      rw [contains_minus,
        Members.contains_intersect leftNormal.1 rightNormal known]
      simp only [Operation.combine, CharSet.contains]
      ac_rfl
  | intersectWithExcept listed shared excluded =>
      rw [contains_minus,
        Members.contains_intersect leftNormal rightNormal.1 known]
      simp only [Operation.combine, CharSet.contains]
      ac_rfl
  | intersectBoth called inductionHypothesis =>
      rw [contains_minus,
        Members.contains_intersect leftNormal.1 rightNormal.1 known,
        inductionHypothesis leftNormal.2 rightNormal.2]
      simp only [Operation.combine, CharSet.contains, Bool.not_or]
      ac_rfl

/-- The complement has the code points outside the gap that the set lacks. -/
theorem contains_negate
    (apart : CharacterData.SurrogatesApart)
    (normal : set.Normal)
    (known : point ≤ maxCodePoint) :
    set.negate.contains point =
      (!isSurrogate point && !set.contains point) := by
  cases set with
  | except members excluded =>
      rw [negate, contains_ofRanges, RangeList.contains_negate
        (normal_flatten normal) known, contains_flatten normal known]
  | plain members =>
      -- A surrogate is told by its category, which the complement leaves out.
      have inScalars : Categories.scalars.contains (Category.of point) =
          !isSurrogate point := by
        rw [Bool.eq_iff_iff, Categories.contains_scalars, Ne, apart point known]
        simp
      have inCategories : (members.categories.negate.intersect
          Categories.scalars).contains (Category.of point) =
            (!members.categories.contains (Category.of point) &&
              !isSurrogate point) := by
        rw [Categories.contains_intersect, Categories.contains_negate,
          inScalars]
      have noRanges : RangeList.empty.contains point = false := rfl
      unfold negate
      dsimp only
      split
      · next isEmpty =>
          rw [ofCategories, CharSet.contains, Members.contains, noRanges,
            inCategories, CharSet.contains, Members.contains,
            RangeList.contains_of_isEmpty isEmpty]
          simp only [Bool.false_or]
          ac_rfl
      · rw [contains_minus, Members.contains, noRanges, inCategories,
          contains_ofRanges, CharSet.contains, Members.contains]
        simp only [Bool.false_or, Bool.not_or]
        ac_rfl

theorem normal_negate (normal : set.Normal) : set.negate.Normal := by
  cases set with
  | except members excluded =>
      exact RangeList.normal_negate (normal_flatten normal)
  | plain members =>
      unfold negate
      dsimp only
      split
      · exact .nil
      · exact normal_minus .nil normal

/-- The algebra of sets in normal form is exact: each operation on two sets is
carried out in finitely many calls, its result is in normal form again, and its
members among the code points are those that the operation stands for; so are
those of the complement and of the explicit ranges. -/
theorem algebra_exact
    (apart : CharacterData.SurrogatesApart)
    (left right : CharSet)
    (leftNormal : left.Normal)
    (rightNormal : right.Normal) :
    (Computes .union left right (left.union right) ∧
        Computes .intersect left right (left.intersect right) ∧
        Computes .subtract left right (left.subtract right)) ∧
      ((left.union right).Normal ∧ (left.intersect right).Normal ∧
        (left.subtract right).Normal ∧ left.negate.Normal ∧
        left.flatten.Normal) ∧
      ∀ point ≤ maxCodePoint,
        (left.union right).contains point =
            (left.contains point || right.contains point) ∧
          (left.intersect right).contains point =
            (left.contains point && right.contains point) ∧
          (left.subtract right).contains point =
            (left.contains point && !right.contains point) ∧
          left.negate.contains point =
            (!isSurrogate point && !left.contains point) ∧
          left.flatten.contains point = left.contains point := by
  have unions := computes_union left right
  have intersects := computes_intersect left right
  have subtracts := computes_subtract left right
  refine ⟨⟨unions, intersects, subtracts⟩,
    ⟨unions.normal leftNormal rightNormal,
      intersects.normal leftNormal rightNormal,
      subtracts.normal leftNormal rightNormal, normal_negate leftNormal,
      normal_flatten leftNormal⟩, fun point known => ?_⟩
  exact ⟨unions.contains leftNormal rightNormal known,
    intersects.contains leftNormal rightNormal known,
    subtracts.contains leftNormal rightNormal known,
    contains_negate apart leftNormal known, contains_flatten leftNormal known⟩

/-- The capitals and the small letters without `c` to `f`, of which `d`
stays. -/
def gappedLetters : CharSet :=
  except ⟨⟨[⟨0x61, 0x7A⟩]⟩, Categories.single .uppercaseLetter⟩
    (except ⟨⟨[⟨0x63, 0x66⟩]⟩, Categories.empty⟩
      (plain ⟨⟨[⟨0x64, 0x64⟩]⟩, Categories.empty⟩))

/-- The small letters from `d` to `h` without `f`. -/
def middleLetters : CharSet :=
  except ⟨⟨[⟨0x64, 0x68⟩]⟩, Categories.empty⟩
    (plain ⟨⟨[⟨0x66, 0x66⟩]⟩, Categories.empty⟩)

omit [CharacterData] in
theorem algebra_exact_gappedLetters :
    let _ : CharacterData := .ascii
    (CharacterData.SurrogatesApart ∧ gappedLetters.Normal ∧
        middleLetters.Normal) ∧
      (gappedLetters.union middleLetters).contains 0x65 = true ∧
      (gappedLetters.intersect middleLetters).contains 0x64 = true ∧
      (gappedLetters.subtract middleLetters).contains 0x62 = true ∧
      gappedLetters.negate.contains 0x66 = true ∧
      gappedLetters.flatten.contains 0x41 = true := by
  let _ : CharacterData := .ascii
  have apart : CharacterData.SurrogatesApart :=
    CharacterData.surrogatesApart_ascii
  have leftNormal : gappedLetters.Normal :=
    ⟨.singleton (by decide), .singleton (by decide), .singleton (by decide)⟩
  have rightNormal : middleLetters.Normal :=
    ⟨.singleton (by decide), .singleton (by decide)⟩
  obtain ⟨-, -, members⟩ := algebra_exact apart _ _ leftNormal
    rightNormal
  refine ⟨⟨apart, leftNormal, rightNormal⟩, ?_⟩
  exact ⟨(members 0x65 (by decide)).1.trans (by decide),
    (members 0x64 (by decide)).2.1.trans (by decide),
    (members 0x62 (by decide)).2.2.1.trans (by decide),
    (members 0x66 (by decide)).2.2.2.1.trans (by decide),
    (members 0x41 (by decide)).2.2.2.2.trans (by decide)⟩

end CharSet
end ParserGenerator
