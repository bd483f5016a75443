import ParserGenerator.CharSet
import ParserGenerator.Proofs.CharacterData

/-!
# Parts of character sets

The explicit ranges of a set, its supplementary part, and the part that single
units stand for have the members that they should have, if all range lists of
the set are in normal form.
-/

namespace ParserGenerator

/-- The surrogates are the code points of their category. -/
def CharacterData.SurrogatesApart [CharacterData] : Prop :=
  ∀ point ≤ maxCodePoint,
    Category.of point = .surrogate ↔ isSurrogate point = true

/-- The letters of ASCII and the surrogates; nothing else is assigned. -/
@[reducible] def CharacterData.ascii : CharacterData where
  category := fun point =>
    if isSurrogate point then
      .surrogate
    else if 0x41 ≤ point ∧ point ≤ 0x5A then
      .uppercaseLetter
    else if 0x61 ≤ point ∧ point ≤ 0x7A then
      .lowercaseLetter
    else
      .unassigned
  counterparts := (List.range 26).flatMap fun letter =>
    [(0x41 + letter, 0x61 + letter), (0x61 + letter, 0x41 + letter)]

theorem CharacterData.surrogatesApart_ascii :
    @CharacterData.SurrogatesApart CharacterData.ascii := by
  intro point _
  show (if isSurrogate point = true then _ else _) = Category.surrogate ↔ _
  split
  · next inGap => simp [inGap]
  · next outsideGap =>
      simp only [outsideGap]
      split
      · simp
      · split <;> simp

theorem isSurrogate_iff {point : Nat} :
    isSurrogate point = true ↔ surrogateFirst ≤ point ∧ point ≤ surrogateLast := by
  simp [isSurrogate]

/-- The category of a code point if only small letters are assigned. -/
def smallLetterCategory (point : Nat) : Category :=
  if isSurrogate point then
    .surrogate
  else if 0x61 ≤ point ∧ point ≤ 0x7A then
    .lowercaseLetter
  else
    .unassigned

/-- The runs of categories if only small letters are assigned. -/
def smallLetterRuns : List CategoryRun :=
  [(.unassigned, ⟨0, 0x60⟩), (.lowercaseLetter, ⟨0x61, 0x7A⟩),
    (.unassigned, ⟨0x7B, 0xD7FF⟩), (.surrogate, ⟨0xD800, 0xDFFF⟩),
    (.unassigned, ⟨0xE000, 0x10FFFF⟩)]

theorem categoryRuns_smallLetterCategory :
    categoryRuns smallLetterCategory = smallLetterRuns := by
  have category_eq (point : Nat) : smallLetterCategory point =
      if 0xD800 ≤ point ∧ point ≤ 0xDFFF then .surrogate
      else if 0x61 ≤ point ∧ point ≤ 0x7A then .lowercaseLetter
      else .unassigned := by
    simp only [smallLetterCategory, isSurrogate_iff]
    rfl
  have start : runsBelow smallLetterCategory 0 = [] := rfl
  have below := runsBelow_of_same start 0x60 .unassigned (by decide)
    (by decide) fun point above below => by
      rw [category_eq, if_neg (by omega), if_neg (by omega)]
  have letters := runsBelow_of_same below 0x7A .lowercaseLetter (by decide)
    (by decide) fun point above below => by
      rw [category_eq, if_neg (by omega), if_pos (by omega)]
  have between := runsBelow_of_same letters 0xD7FF .unassigned (by decide)
    (by decide) fun point above below => by
      rw [category_eq, if_neg (by omega), if_neg (by omega)]
  have surrogates := runsBelow_of_same between 0xDFFF .surrogate (by decide)
    (by decide) fun point above below => by
      rw [category_eq, if_pos (by omega)]
  have above := runsBelow_of_same surrogates 0x10FFFF .unassigned (by decide)
    (by decide) fun point above below => by
      rw [category_eq, if_neg (by omega), if_neg (by omega)]
  exact congrArg List.reverse above

/-- Small letters and surrogates with their runs; nothing else is assigned. -/
@[reducible] def CharacterData.smallLetters : CharacterData where
  category := smallLetterCategory
  counterparts := []
  runs := smallLetterRuns
  runs_eq := categoryRuns_smallLetterCategory.symm

variable [CharacterData] {point : Nat}

namespace Members

variable {members : Members}

theorem contains_of_isEmpty
    (isEmpty : members.isEmpty = true)
    (point : Nat) :
    members.contains point = false := by
  obtain ⟨noRanges, noCategories⟩ := Bool.and_eq_true_iff.mp isEmpty
  have noneCovered : members.ranges.ranges = [] := by
    simpa [RangeList.isEmpty] using noRanges
  rw [contains, Categories.isEmpty_iff.mp noCategories, RangeList.contains,
    noneCovered]
  rfl

theorem normal_flatten
    (normal : members.ranges.Normal) :
    members.flatten.Normal := by
  unfold flatten
  split
  · exact normal
  · exact RangeList.normal_union normal Categories.normal_codePoints

theorem contains_flatten
    (normal : members.ranges.Normal)
    (known : point ≤ maxCodePoint) :
    members.flatten.contains point = members.contains point := by
  unfold flatten contains
  split
  · next noCategories =>
      rw [Categories.isEmpty_iff.mp noCategories, Bool.or_false]
  · rw [RangeList.contains_union normal Categories.normal_codePoints]
    congr 1
    rw [Bool.eq_iff_iff, Categories.contains_codePoints]
    exact and_iff_right known

theorem contains_toUnits
    (apart : CharacterData.SurrogatesApart)
    (normal : members.ranges.Normal)
    (isUnit : point < supplementaryFirst) :
    members.toUnits.contains point =
      (!isSurrogate point && members.contains point) := by
  have gap : RangeList.surrogates.Normal := .singleton (by decide)
  have clamped : (members.ranges.clamp 0 (supplementaryFirst - 1)).Normal :=
    RangeList.normal_clamp normal (Nat.zero_le _)
  have inGap : RangeList.surrogates.contains point = isSurrogate point := by
    rw [Bool.eq_iff_iff, RangeList.contains_iff, isSurrogate_iff]
    simp [RangeList.surrogates]
  have inClamp : (members.ranges.clamp 0 (supplementaryFirst - 1)).contains
      point = members.ranges.contains point := by
    rw [Bool.eq_iff_iff, RangeList.contains_clamp normal (Nat.zero_le _)]
    exact and_iff_left ⟨Nat.zero_le _, Nat.le_pred_of_lt isUnit⟩
  have isScalar : Categories.scalars.contains (Category.of point) =
      !isSurrogate point := by
    have known : point ≤ maxCodePoint :=
      Nat.le_trans (Nat.le_of_lt isUnit) (by decide)
    rw [Bool.eq_iff_iff, Categories.contains_scalars, Ne, apart point known]
    simp
  rw [toUnits, contains, RangeList.contains_subtract clamped gap, inGap,
    inClamp, Categories.contains_intersect, isScalar, contains]
  cases isSurrogate point <;> simp

end Members

namespace CharSet

/-- All range lists of the set are in normal form. -/
def Normal : CharSet → Prop
  | plain members => members.ranges.Normal
  | except members excluded => members.ranges.Normal ∧ excluded.Normal

variable {set : CharSet}

theorem contains_of_isEmpty
    (isEmpty : set.isEmpty = true)
    (point : Nat) :
    set.contains point = false := by
  cases set with
  | plain members => exact Members.contains_of_isEmpty isEmpty point
  | except members excluded =>
      have notListed : members.contains point = false :=
        Members.contains_of_isEmpty isEmpty point
      rw [contains, notListed, Bool.false_and]

theorem contains_minus
    (members : Members)
    (excluded : CharSet)
    (point : Nat) :
    (minus members excluded).contains point =
      (members.contains point && !excluded.contains point) := by
  unfold minus
  split
  · next isEmpty =>
      rw [contains, contains_of_isEmpty isEmpty, Bool.not_false, Bool.and_true]
  · rw [contains]

theorem contains_ofRanges (ranges : RangeList) (point : Nat) :
    (ofRanges ranges).contains point = ranges.contains point := by
  simp [ofRanges, contains, Members.contains]

omit [CharacterData] in
theorem normal_single (point : Nat) : (single point).Normal :=
  RangeList.Apart.singleton (Nat.le_refl point)

theorem normal_toAnyCase
    (normal : set.Normal) :
    set.toAnyCase.Normal := by
  induction set with
  | plain members => exact RangeList.normal_toAnyCase normal
  | except members excluded inductionHypothesis =>
      exact ⟨RangeList.normal_toAnyCase normal.1, inductionHypothesis normal.2⟩

theorem normal_flatten
    (normal : set.Normal) :
    set.flatten.Normal := by
  induction set with
  | plain members => exact Members.normal_flatten normal
  | except members excluded inductionHypothesis =>
      exact RangeList.normal_subtract (Members.normal_flatten normal.1)
        (inductionHypothesis normal.2)

/-- The explicit ranges of a set have its members. -/
theorem contains_flatten
    (normal : set.Normal)
    (known : point ≤ maxCodePoint) :
    set.flatten.contains point = set.contains point := by
  induction set with
  | plain members => exact Members.contains_flatten normal known
  | except members excluded inductionHypothesis =>
      rw [flatten, RangeList.contains_subtract (Members.normal_flatten normal.1)
        (normal_flatten normal.2), Members.contains_flatten normal.1 known,
        inductionHypothesis normal.2, contains]

theorem normal_supplementary
    (normal : set.Normal) :
    set.supplementary.Normal :=
  RangeList.normal_clamp (normal_flatten normal) (by decide)

/-- The supplementary part has the supplementary members. -/
theorem contains_supplementary
    (normal : set.Normal) :
    set.supplementary.contains point = true ↔
      set.contains point = true ∧ supplementaryFirst ≤ point ∧
        point ≤ maxCodePoint := by
  rw [supplementary, RangeList.contains_clamp (normal_flatten normal)
    (by decide)]
  refine and_congr_left fun bounds => ?_
  rw [contains_flatten normal bounds.2]

/-- A unit that is no surrogate stands for the member with its number. -/
theorem contains_toUnits
    (apart : CharacterData.SurrogatesApart)
    (normal : set.Normal)
    (isUnit : point < supplementaryFirst) :
    set.toUnits.contains point =
      (!isSurrogate point && set.contains point) := by
  induction set with
  | plain members => exact Members.contains_toUnits apart normal isUnit
  | except members excluded inductionHypothesis =>
      rw [toUnits, contains_minus,
        Members.contains_toUnits apart normal.1 isUnit,
        inductionHypothesis normal.2, contains]
      cases isSurrogate point <;> simp

end CharSet
end ParserGenerator
