import ParserGenerator.CharacterData
import ParserGenerator.Proofs.RangeList

/-!
# Sets of categories and their code points

Membership in the operations on sets of categories, and in the code points of
such a set: the scan of the code space finds every code point by its category.
-/

namespace ParserGenerator

namespace Categories

variable {set left right : Categories} {category : Category}

theorem ext_iff_contains :
    left = right ↔ ∀ category, left.contains category = right.contains category := by
  refine ⟨fun same category => same ▸ rfl, fun same => ?_⟩
  obtain ⟨leftBits⟩ := left
  obtain ⟨rightBits⟩ := right
  rw [mk.injEq]
  apply BitVec.eq_of_getLsbD_eq
  intro index inside
  obtain ⟨category, isIndex⟩ : ∃ category : Category, category.index = index := by
    have listed : (Category.all.map Category.index) = List.range 30 := by decide
    have member : index ∈ Category.all.map Category.index := by
      rw [listed]
      exact List.mem_range.mpr inside
    obtain ⟨category, -, isIndex⟩ := List.mem_map.mp member
    exact ⟨category, isIndex⟩
  rw [← isIndex]
  exact same category

@[simp] theorem contains_empty : empty.contains category = false := by
  simp [contains, empty]

@[simp] theorem contains_all : all.contains category = true := by
  rw [contains, all, BitVec.getLsbD_allOnes]
  exact decide_eq_true category.index_lt

@[simp] theorem contains_union :
    (left.union right).contains category =
      (left.contains category || right.contains category) := by
  simp [contains, union]

@[simp] theorem contains_intersect :
    (left.intersect right).contains category =
      (left.contains category && right.contains category) := by
  simp [contains, intersect]

@[simp] theorem contains_subtract :
    (left.subtract right).contains category =
      (left.contains category && !right.contains category) := by
  simp [contains, subtract, category.index_lt]

theorem index_injective
    {category other : Category}
    (same : category.index = other.index) :
    category = other := by
  have listed : Category.all[category.index]? = some category := by
    cases category <;> rfl
  have otherListed : Category.all[other.index]? = some other := by
    cases other <;> rfl
  rw [same] at listed
  exact Option.some.inj (listed.symm.trans otherListed)

@[simp] theorem contains_single {other : Category} :
    (single other).contains category = true ↔ category = other := by
  simp only [contains, single, BitVec.getLsbD_twoPow]
  refine ⟨fun holds => ?_, fun same => ?_⟩
  · refine index_injective ?_
    simp only [Bool.and_eq_true, decide_eq_true_eq] at holds
    exact holds.2.symm
  · subst same
    simp [category.index_lt]

@[simp] theorem contains_scalars :
    scalars.contains category = true ↔ category ≠ .surrogate := by
  simp [scalars, ← Bool.not_eq_true]

theorem contains_ofList {categories : List Category} :
    (ofList categories).contains category = true ↔ category ∈ categories := by
  suffices general : ∀ start : Categories,
      (categories.foldl insert start).contains category = true ↔
        start.contains category = true ∨ category ∈ categories by
    simpa [ofList] using general empty
  induction categories with
  | nil => simp
  | cons first rest inductionHypothesis =>
      intro start
      rw [List.foldl_cons, inductionHypothesis, insert, contains_union,
        Bool.or_eq_true, contains_single, List.mem_cons, or_assoc]

theorem isEmpty_iff :
    set.isEmpty = true ↔ ∀ category, set.contains category = false := by
  rw [isEmpty, beq_iff_eq, ext_iff_contains]
  simp

end Categories

/-! ## Runs -/

/-- Runs, the latest first, that divide the points below a number by their
categories. -/
inductive Divides (category : Nat → Category) : Nat → List CategoryRun → Prop
  | nil : Divides category 0 []
  | cons
      {first last : Nat}
      {found : Category}
      {runs : List CategoryRun}
      (rest : Divides category first runs)
      (nonempty : first ≤ last)
      (same : ∀ point, first ≤ point → point ≤ last → category point = found) :
      Divides category (last + 1) ((found, ⟨first, last⟩) :: runs)

variable {category : Nat → Category} {count : Nat} {runs : List CategoryRun}

/-- The next point extends the latest run or starts one. -/
theorem Divides.extendRuns
    (divides : Divides category count runs) :
    Divides category (count + 1) (extendRuns runs (category count) count) := by
  unfold ParserGenerator.extendRuns
  cases divides with
  | nil =>
      refine .cons .nil (Nat.le_refl 0) fun point above below => ?_
      rw [Nat.le_antisymm below above]
  | @cons first last found runs rest nonempty same =>
      dsimp only
      split
      · next isFound =>
          refine .cons rest (Nat.le_succ_of_le nonempty) ?_
          intro point above below
          rcases Nat.lt_or_eq_of_le below with earlier | rfl
          · exact same point above (Nat.le_of_lt_succ earlier)
          · exact isFound
      · refine .cons (.cons rest nonempty same) (Nat.le_refl _) ?_
        intro point above below
        rw [Nat.le_antisymm below above]

theorem divides_fold (category : Nat → Category) (count : Nat) :
    Divides category count (Nat.fold count
      (fun point _ runs => extendRuns runs (category point) point) []) := by
  induction count with
  | zero => exact .nil
  | succ count inductionHypothesis =>
      rw [Nat.fold_succ]
      exact inductionHypothesis.extendRuns

/-- Every point lies in a run of its category, and only in such runs. -/
theorem Divides.exists_run_iff
    (divides : Divides category count runs)
    (point : Nat)
    (found : Category) :
    (∃ range, (found, range) ∈ runs ∧ range.first ≤ point ∧
        point ≤ range.last) ↔
      point < count ∧ category point = found := by
  induction divides with
  | nil => simp
  | @cons first last other runs rest nonempty same inductionHypothesis =>
      constructor
      · rintro ⟨range, member, above, below⟩
        rcases List.mem_cons.mp member with isHead | later
        · obtain ⟨rfl, rfl⟩ := Prod.mk.inj isHead
          exact ⟨Nat.lt_succ_of_le below, same point above below⟩
        · obtain ⟨before, isFound⟩ :=
            inductionHypothesis.mp ⟨range, later, above, below⟩
          exact ⟨by omega, isFound⟩
      · rintro ⟨before, isFound⟩
        by_cases earlier : point < first
        · obtain ⟨range, member, inside⟩ :=
            inductionHypothesis.mpr ⟨earlier, isFound⟩
          exact ⟨range, List.mem_cons_of_mem _ member, inside⟩
        · have above := Nat.le_of_not_lt earlier
          have below := Nat.le_of_lt_succ before
          rw [same point above below] at isFound
          exact ⟨⟨first, last⟩, isFound ▸ List.mem_cons_self, above, below⟩

/-- Runs are not empty, and the later ones lie beyond the earlier ones. -/
theorem Divides.descends
    (divides : Divides category count runs) :
    (∀ run ∈ runs, run.2.first ≤ run.2.last ∧ run.2.last < count) ∧
      runs.Pairwise fun later earlier => earlier.2.first ≤ later.2.first := by
  induction divides with
  | nil => simp
  | @cons first last other runs rest nonempty same inductionHypothesis =>
      obtain ⟨inside, ordered⟩ := inductionHypothesis
      refine ⟨fun run member => ?_, List.pairwise_cons.mpr
        ⟨fun run member => ?_, ordered⟩⟩
      · rcases List.mem_cons.mp member with rfl | later
        · exact ⟨nonempty, Nat.lt_succ_self _⟩
        · have bounds := inside run later
          exact ⟨bounds.1, by omega⟩
      · have bounds := inside run member
        dsimp only
        omega

/-- The runs of the points below a number, the latest first. -/
def runsBelow (category : Nat → Category) (count : Nat) : List CategoryRun :=
  Nat.fold count (fun point _ runs => extendRuns runs (category point) point) []

/-- Points of one category that differ from those before make one run. -/
theorem runsBelow_of_same
    {first : Nat}
    (before : runsBelow category first = runs)
    (last : Nat)
    (found : Category)
    (differs : ∀ run ∈ runs.head?, found ≠ run.1)
    (nonempty : first ≤ last)
    (same : ∀ point, first ≤ point → point ≤ last → category point = found) :
    runsBelow category (last + 1) = (found, ⟨first, last⟩) :: runs := by
  obtain ⟨length, rfl⟩ := Nat.exists_eq_add_of_le nonempty
  induction length with
  | zero =>
      rw [runsBelow, Nat.fold_succ, ← runsBelow, Nat.add_zero, before,
        same first (Nat.le_refl _) nonempty]
      cases runs with
      | nil => rfl
      | cons run rest => exact if_neg (differs run rfl)
  | succ length inductionHypothesis =>
      have shorter := inductionHypothesis (Nat.le_add_right _ _)
        fun point above below => same point above (Nat.le_succ_of_le below)
      have isFound : category (first + length + 1) = found :=
        same _ nonempty (Nat.le_refl _)
      rw [runsBelow, Nat.fold_succ, ← runsBelow, ← Nat.add_assoc, shorter,
        isFound]
      exact if_pos rfl

namespace Categories

variable [CharacterData] {set : Categories} {point : Nat}

theorem ordered_runs :
    ((CharacterData.runs.filter fun run => set.contains run.1).map
      Prod.snd).Pairwise fun left right => left.first ≤ right.first := by
  rw [CharacterData.runs_eq, categoryRuns]
  refine List.Pairwise.map Prod.snd (fun _ _ less => less) ?_
  refine List.Pairwise.filter _ (List.pairwise_reverse.mpr ?_)
  exact (divides_fold _ _).descends.2

/-- The code points of a set are those whose category is in it. -/
theorem contains_codePoints :
    set.codePoints.contains point = true ↔
      point ≤ maxCodePoint ∧ set.contains (Category.of point) = true := by
  have divides := divides_fold (CharacterData.category) (maxCodePoint + 1)
  rw [RangeList.contains_iff, codePoints, RangeList.covers_coalesce ordered_runs,
    CharacterData.runs_eq, categoryRuns]
  constructor
  · rintro ⟨range, member, inside⟩
    obtain ⟨⟨found, other⟩, isRun, rfl⟩ := List.mem_map.mp member
    obtain ⟨inRuns, inSet⟩ := List.mem_filter.mp isRun
    obtain ⟨before, isFound⟩ := (divides.exists_run_iff point found).mp
      ⟨other, List.mem_reverse.mp inRuns, inside⟩
    refine ⟨Nat.le_of_lt_succ before, ?_⟩
    rw [Category.of, isFound]
    exact inSet
  · rintro ⟨before, inSet⟩
    obtain ⟨range, member, inside⟩ :=
      (divides.exists_run_iff point _).mpr ⟨Nat.lt_succ_of_le before, rfl⟩
    exact ⟨range, List.mem_map.mpr ⟨_, List.mem_filter.mpr
      ⟨List.mem_reverse.mpr member, inSet⟩, rfl⟩, inside⟩

theorem normal_codePoints : set.codePoints.Normal := by
  refine RangeList.apart_coalesce ordered_runs fun range member => ?_
  obtain ⟨run, isRun, rfl⟩ := List.mem_map.mp member
  have inRuns := (List.mem_filter.mp isRun).1
  rw [CharacterData.runs_eq, categoryRuns] at inRuns
  exact ((divides_fold _ _).descends.1 run (List.mem_reverse.mp inRuns)).1

end Categories

theorem RangeList.normal_toAnyCase
    [CharacterData]
    {set : RangeList}
    (normal : set.Normal) :
    set.toAnyCase.Normal := by
  refine RangeList.normal_union normal (RangeList.normal_ofRanges ?_)
  intro range member
  obtain ⟨pair, -, rfl⟩ := List.mem_map.mp member
  exact Nat.le_refl _

/-- The closure adds the counterparts of the members. -/
theorem RangeList.contains_toAnyCase
    [CharacterData]
    {set : RangeList}
    {point : Nat}
    (normal : set.Normal) :
    set.toAnyCase.contains point = true ↔ set.contains point = true ∨
      ∃ member, set.contains member = true ∧
        (member, point) ∈ CharacterData.counterparts := by
  have addedNormal : (RangeList.ofRanges
      ((CharacterData.counterparts.filter fun pair =>
        set.contains pair.1).map fun pair =>
          CodeRange.single pair.2)).Normal := by
    refine RangeList.normal_ofRanges fun range member => ?_
    obtain ⟨pair, -, rfl⟩ := List.mem_map.mp member
    exact Nat.le_refl _
  rw [toAnyCase, contains_union normal addedNormal, Bool.or_eq_true,
    contains_ofRanges]
  refine or_congr_right ⟨?_, ?_⟩
  · rintro ⟨range, member, inside⟩
    obtain ⟨⟨origin, target⟩, added, rfl⟩ := List.mem_map.mp member
    obtain ⟨isPair, listed⟩ := List.mem_filter.mp added
    obtain rfl := CodeRange.contains_single.mp (CodeRange.contains_iff.mpr inside)
    exact ⟨origin, listed, isPair⟩
  · rintro ⟨origin, listed, isPair⟩
    exact ⟨CodeRange.single point, List.mem_map.mpr
      ⟨(origin, point), List.mem_filter.mpr ⟨isPair, listed⟩, rfl⟩,
      Nat.le_refl _, Nat.le_refl _⟩

end ParserGenerator
