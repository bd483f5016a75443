import Mathlib.Data.List.Basic
import Mathlib.Logic.Function.Basic
import ParserGenerator.Proofs.RangeList.Words

/-!
# Tables of categories

One scan of the code space lists the runs of every category: a run goes on
while the category stays, ends where it changes, and the last one ends with the
code space. The runs of each category make a range list, and the union of those
of some categories has the code points that are found by category one by one.
-/

namespace ParserGenerator

/-! ## The scan -/

/-- A scan of the code points. -/
structure CategoryScan where
  /-- The runs that have ended, for each category. -/
  ended : Category → List CodeRange
  /-- Where the run that goes on starts. -/
  first : Nat
  /-- The category of the run that goes on. -/
  current : Category

namespace CategoryScan

/-- The scan of the first point alone. -/
def start (category : Nat → Category) : CategoryScan :=
  ⟨fun _ => [], 0, category 0⟩

/-- The runs if the one that goes on ends at a point. -/
def endAt (scan : CategoryScan) (last : Nat) : Category → List CodeRange :=
  Function.update scan.ended scan.current
    (scan.ended scan.current ++ [⟨scan.first, last⟩])

/-- Scan one more point. -/
def next (category : Nat → Category) (scan : CategoryScan) (point : Nat) :
    CategoryScan :=
  if category point = scan.current then
    scan
  else
    ⟨scan.endAt (point - 1), point, category point⟩

/-- The scan of the points up to a last one. -/
def upTo (category : Nat → Category) : Nat → CategoryScan
  | 0 => start category
  | last + 1 => (upTo category last).next category (last + 1)

variable {category : Nat → Category} {scan : CategoryScan} {last : Nat}

/-- The ended runs list the points before the run that goes on, with a gap after
each, and one before the run that goes on after those of its category. -/
structure Lists (category : Nat → Category) (scan : CategoryScan)
    (last : Nat) : Prop where
  first_le : scan.first ≤ last
  current : ∀ point, scan.first ≤ point → point ≤ last →
    category point = scan.current
  covers : ∀ found point, RangeList.Covers (scan.ended found) point ↔
    point < scan.first ∧ category point = found
  apart : ∀ found, RangeList.Apart (scan.ended found)
  gap : ∀ range ∈ scan.ended scan.current, range.last + 1 < scan.first

theorem lists_start (category : Nat → Category) :
    (start category).Lists category 0 where
  first_le := Nat.le_refl 0
  current point _ below := by
    rw [Nat.le_zero.mp below]
    rfl
  covers found point := by
    simp [start]
  apart _ := .nil
  gap _ impossible := absurd impossible List.not_mem_nil

namespace Lists

/-- An ended run ends before the run that goes on. -/
theorem last_lt
    (lists : scan.Lists category last)
    {found : Category}
    {range : CodeRange}
    (member : range ∈ scan.ended found) :
    range.last < scan.first := by
  have nonempty := (lists.apart found).nonempty range member
  exact ((lists.covers found range.last).mp
    ⟨range, member, nonempty, Nat.le_refl _⟩).1

/-- With the run that goes on, the runs list all points up to the last one. -/
theorem covers_endAt
    (lists : scan.Lists category last)
    (found : Category)
    (point : Nat) :
    RangeList.Covers (scan.endAt last found) point ↔
      point ≤ last ∧ category point = found := by
  have start := lists.first_le
  by_cases isCurrent : found = scan.current
  · subst isCurrent
    rw [endAt, Function.update_self, RangeList.covers_append, lists.covers,
      RangeList.covers_mk_cons]
    constructor
    · rintro (⟨before, same⟩ | ⟨above, below⟩ | impossible)
      · exact ⟨by omega, same⟩
      · exact ⟨below, lists.current point above below⟩
      · exact absurd impossible RangeList.not_covers_nil
    · rintro ⟨below, same⟩
      rcases Nat.lt_or_ge point scan.first with before | above
      · exact .inl ⟨before, same⟩
      · exact .inr (.inl ⟨above, below⟩)
  · rw [endAt, Function.update_of_ne isCurrent, lists.covers]
    constructor
    · rintro ⟨before, same⟩
      exact ⟨by omega, same⟩
    · rintro ⟨below, same⟩
      refine ⟨Nat.lt_of_not_le fun above => isCurrent ?_, same⟩
      rw [← same, lists.current point above below]

theorem apart_endAt
    (lists : scan.Lists category last)
    (found : Category) :
    RangeList.Apart (scan.endAt last found) := by
  by_cases isCurrent : found = scan.current
  · subst isCurrent
    rw [endAt, Function.update_self]
    have apart := lists.apart scan.current
    refine ⟨List.forall_mem_append.mpr ⟨apart.nonempty,
      List.forall_mem_singleton.mpr lists.first_le⟩,
      List.pairwise_append.mpr ⟨apart.gaps, List.pairwise_singleton _ _, ?_⟩⟩
    intro range member other isLast
    rw [List.mem_singleton.mp isLast]
    exact lists.gap range member
  · rw [endAt, Function.update_of_ne isCurrent]
    exact lists.apart found

/-- A run goes on while the category stays and ends where it changes. -/
theorem next (lists : scan.Lists category last) :
    (scan.next category (last + 1)).Lists category (last + 1) := by
  have start := lists.first_le
  unfold CategoryScan.next
  split
  · next stays =>
      refine ⟨by omega, fun point above below => ?_, lists.covers, lists.apart,
        lists.gap⟩
      rcases Nat.lt_or_eq_of_le below with earlier | rfl
      · exact lists.current point above (Nat.le_of_lt_succ earlier)
      · exact stays
  · next changes =>
      refine ⟨Nat.le_refl _, fun point above below => ?_, fun found point => ?_,
        lists.apart_endAt, fun range member => ?_⟩
      · rw [Nat.le_antisymm below above]
      · rw [Nat.add_sub_cancel, lists.covers_endAt, Nat.lt_succ_iff]
      · -- The latest run is of another category.
        dsimp only at member
        rw [Nat.add_sub_cancel, endAt, Function.update_of_ne changes] at member
        have before := lists.last_lt member
        show range.last + 1 < last + 1
        omega

end Lists

theorem lists_upTo (category : Nat → Category) (last : Nat) :
    (upTo category last).Lists category last := by
  induction last with
  | zero => exact lists_start category
  | succ last inductionHypothesis => exact inductionHypothesis.next

end CategoryScan

/-! ## The tables -/

/-- The points up to a last one that are of a category. -/
def categoryTable (category : Nat → Category) (last : Nat) (found : Category) :
    RangeList :=
  RangeList.ofRanges ((CategoryScan.upTo category last).endAt last found)

section Table

variable {category : Nat → Category} {last point : Nat} {found : Category}

theorem normal_categoryTable :
    (categoryTable category last found).Normal :=
  RangeList.normal_ofRanges
    ((CategoryScan.lists_upTo category last).apart_endAt found).nonempty

theorem contains_categoryTable :
    (categoryTable category last found).contains point = true ↔
      point ≤ last ∧ category point = found := by
  rw [categoryTable, RangeList.contains_ofRanges]
  exact (CategoryScan.lists_upTo category last).covers_endAt found point

/-- The runs of a category are a range list as they are found. -/
theorem ranges_categoryTable :
    (categoryTable category last found).ranges =
      (CategoryScan.upTo category last).endAt last found := by
  refine RangeList.Apart.eq_of_covers_iff normal_categoryTable
    ((CategoryScan.lists_upTo category last).apart_endAt found) fun point => ?_
  rw [← RangeList.contains_iff, categoryTable, RangeList.contains_ofRanges]

example :
    (categoryTable (fun point => if point = 2 then .control else .format) 4
      .format).ranges = [⟨0, 1⟩, ⟨3, 4⟩] := by
  rw [ranges_categoryTable]
  decide

end Table

/-! ## Look-up and unions -/

namespace RangeList

/-- Membership by the first range that does not end before the point. -/
def lookUp (set : RangeList) (point : Nat) : Bool :=
  (set.ranges.find? fun range => point ≤ range.last).any fun range =>
    range.first ≤ point

/-- In normal form, the first range that does not end before a point decides. -/
theorem Normal.lookUp_eq
    {set : RangeList}
    (normal : set.Normal)
    (point : Nat) :
    set.lookUp point = set.contains point := by
  obtain ⟨ranges⟩ := set
  have apart : Apart ranges := normal
  clear normal
  rw [Bool.eq_iff_iff, contains_iff, lookUp]
  dsimp only
  induction ranges with
  | nil => simp
  | cons range rest inductionHypothesis =>
      by_cases reaches : point ≤ range.last
      · have notLater : ¬ Covers rest point := fun later =>
          absurd (apart.beyond later) (by omega)
        simp [reaches, notLater]
      · simpa [reaches] using inductionHypothesis apart.tail

/-- The union of range lists that are added one after the other. -/
theorem foldl_union
    {α : Type}
    {lists : α → RangeList}
    (normal : ∀ item, (lists item).Normal)
    (items : List α)
    (start : RangeList)
    (startNormal : start.Normal) :
    (items.foldl (fun set item => set.union (lists item)) start).Normal ∧
      ∀ point,
        (items.foldl (fun set item => set.union (lists item)) start).contains
            point = true ↔
          start.contains point = true ∨
            ∃ item ∈ items, (lists item).contains point = true := by
  induction items generalizing start with
  | nil => simpa using startNormal
  | cons item rest inductionHypothesis =>
      obtain ⟨isNormal, members⟩ :=
        inductionHypothesis _ (normal_union startNormal (normal item))
      refine ⟨isNormal, fun point => (members point).trans ?_⟩
      rw [contains_union startNormal (normal item), Bool.or_eq_true,
        List.exists_mem_cons_iff, or_assoc]

end RangeList

/-! ## Sets of categories -/

namespace Categories

/-- The code points of a set of categories, by the tables of its members. -/
def tabulated (category : Nat → Category) (set : Categories) : RangeList :=
  set.toList.foldl
    (fun points found =>
      points.union (categoryTable category maxCodePoint found))
    RangeList.empty

theorem mem_toList {set : Categories} {category : Category} :
    category ∈ set.toList ↔ set.contains category = true := by
  simp [toList, Category.mem_all]

variable {category : Nat → Category} {set : Categories} {point : Nat}

theorem normal_tabulated : (set.tabulated category).Normal :=
  (RangeList.foldl_union (fun _ => normal_categoryTable) _ _ .nil).1

theorem contains_tabulated :
    (set.tabulated category).contains point = true ↔
      point ≤ maxCodePoint ∧ set.contains (category point) = true := by
  have members := (RangeList.foldl_union
    (fun found => @normal_categoryTable category maxCodePoint found)
    set.toList RangeList.empty .nil).2 point
  rw [tabulated, members]
  simp only [contains_categoryTable, mem_toList]
  constructor
  · rintro (impossible | ⟨found, inSet, below, rfl⟩)
    · exact absurd impossible Bool.false_ne_true
    · exact ⟨below, inSet⟩
  · rintro ⟨below, inSet⟩
    exact .inr ⟨category point, inSet, below, rfl⟩

/-- The code points of a set of categories are those whose category is in it.
For each category the scan lists the points of that category as a range list in
normal form; the union of these lists over a set is what the library computes,
is in normal form again, so that look-up by order finds its members, and stays
within the code space. -/
theorem codePoints_of_tables [CharacterData] (set : Categories) :
    (∀ found : Category,
      (categoryTable Category.of maxCodePoint found).Normal ∧
        (categoryTable Category.of maxCodePoint found).ranges =
          (CategoryScan.upTo Category.of maxCodePoint).endAt maxCodePoint
            found ∧
        ∀ point,
          (categoryTable Category.of maxCodePoint found).contains point = true ↔
            point ≤ maxCodePoint ∧ Category.of point = found) ∧
      set.tabulated Category.of = set.codePoints ∧
      set.codePoints.Normal ∧
      (∀ point, set.codePoints.lookUp point = set.codePoints.contains point ∧
        (set.codePoints.contains point = true ↔
          point ≤ maxCodePoint ∧ set.contains (Category.of point) = true)) ∧
      ∀ range ∈ set.codePoints.ranges, range.last ≤ maxCodePoint := by
  refine ⟨fun found => ⟨normal_categoryTable, ranges_categoryTable,
    fun point => contains_categoryTable⟩, ?_, normal_codePoints,
    fun point => ⟨normal_codePoints.lookUp_eq point, contains_codePoints⟩,
    fun range member => ?_⟩
  · refine normal_tabulated.eq_of_contains_iff normal_codePoints fun point => ?_
    rw [contains_tabulated, contains_codePoints]
  · have nonempty := normal_codePoints.nonempty range member
    have covered : set.codePoints.contains range.last = true :=
      RangeList.contains_iff.mpr ⟨range, member, nonempty, Nat.le_refl _⟩
    exact (contains_codePoints.mp covered).1

end Categories
end ParserGenerator
