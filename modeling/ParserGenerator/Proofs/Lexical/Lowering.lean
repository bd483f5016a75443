import Mathlib.Data.List.Chain
import ParserGenerator.Proofs.Lexical.Characters
import ParserGenerator.Proofs.Lexical.Meaning

/-!
# Character sets as units

The supplementary part of a character set becomes runs of high surrogates in
ascending order, each with the low surrogates that its members share, and with
other ones than the run that it touches. From the entry to the exit of the
fragment of a set lead the paths over the units of its characters and no
others, so that no path reads a surrogate without its partner.
-/

namespace ParserGenerator
namespace Lexical

/-! ## Blocks -/

variable {range : CodeRange} {block : Nat × CodeRange}
  {blocks : List (Nat × CodeRange)} {set : RangeList}

theorem highSurrogate_le
    {point other : Nat}
    (less : point ≤ other) :
    highSurrogate point ≤ highSurrogate other := by
  rw [highSurrogate_eq, highSurrogate_eq]
  omega

theorem ascending_surrogateBlocks (range : CodeRange) :
    (surrogateBlocks range).Pairwise fun earlier later =>
      earlier.1 < later.1 := by
  rw [surrogateBlocks, List.pairwise_map]
  exact List.pairwise_lt_range.imp fun less => Nat.add_lt_add_left less _

/-- A block lies between the first and the last high surrogate of its range, and
has a low surrogate. -/
theorem bounds_of_mem_surrogateBlocks
    (nonempty : range.first ≤ range.last)
    (above : supplementaryFirst ≤ range.first)
    (member : block ∈ surrogateBlocks range) :
    highSurrogate range.first ≤ block.1 ∧
      block.1 ≤ highSurrogate range.last ∧
      block.2.first ≤ block.2.last := by
  have atLeast : 0x10000 ≤ range.first := above
  have leastLow : lowSurrogateFirst = 0xDC00 := rfl
  have greatestLow : surrogateLast = 0xDFFF := rfl
  have firstHigh := highSurrogate_eq range.first
  have firstLow := lowSurrogate_eq range.first
  have lastHigh := highSurrogate_eq range.last
  have lastLow := lowSurrogate_eq range.last
  obtain ⟨offset, inside, rfl⟩ := List.mem_map.mp member
  rw [List.mem_range] at inside
  refine ⟨Nat.le_add_right _ _, ?_, ?_⟩
  · dsimp only
    omega
  · dsimp only
    split <;> split <;> omega

/-- The blocks of a set in normal form never step back. -/
theorem ordered_surrogateBlocks
    (normal : set.Normal)
    (above : ∀ range ∈ set.ranges, supplementaryFirst ≤ range.first) :
    (set.ranges.flatMap surrogateBlocks).Pairwise fun earlier later =>
      earlier.1 ≤ later.1 := by
  refine List.pairwise_flatMap.mpr ⟨fun range _ =>
    (ascending_surrogateBlocks range).imp Nat.le_of_lt, ?_⟩
  refine normal.gaps.imp_of_mem fun {left right} isLeft isRight gap => ?_
  intro earlier isEarlier later isLater
  have leftBounds := bounds_of_mem_surrogateBlocks
    (normal.nonempty left isLeft) (above left isLeft) isEarlier
  have rightBounds := bounds_of_mem_surrogateBlocks
    (normal.nonempty right isRight) (above right isRight) isLater
  calc earlier.1
    _ ≤ highSurrogate left.last := leftBounds.2.1
    _ ≤ highSurrogate right.first :=
        highSurrogate_le (Nat.le_of_lt (Nat.lt_of_succ_lt gap))
    _ ≤ later.1 := rightBounds.1

/-! ## Groups -/

/-- A group has the low surrogates of some blocks with its high one. -/
theorem mem_of_mem_groupByHigh
    {group : Nat × List CodeRange}
    (member : group ∈ groupByHigh blocks) :
    group.2 ≠ [] ∧ ∀ low ∈ group.2, (group.1, low) ∈ blocks := by
  fun_induction groupByHigh blocks generalizing group with
  | case1 => exact absurd member List.not_mem_nil
  | case2 low rest next lows groups restGroups inductionHypothesis =>
      rw [restGroups] at inductionHypothesis
      rcases List.mem_cons.mp member with rfl | later
      · obtain ⟨-, inRest⟩ := inductionHypothesis List.mem_cons_self
        refine ⟨List.cons_ne_nil _ _, List.forall_mem_cons.mpr
          ⟨List.mem_cons_self, fun other isOther => ?_⟩⟩
        exact List.mem_cons_of_mem _ (inRest other isOther)
      · obtain ⟨some, inRest⟩ :=
          inductionHypothesis (List.mem_cons_of_mem _ later)
        exact ⟨some, fun other isOther =>
          List.mem_cons_of_mem _ (inRest other isOther)⟩
  | case3 high low rest next lows groups restGroups differs
      inductionHypothesis =>
      rw [restGroups] at inductionHypothesis
      rcases List.mem_cons.mp member with rfl | later
      · exact ⟨List.cons_ne_nil _ _,
          List.forall_mem_singleton.mpr List.mem_cons_self⟩
      · obtain ⟨some, inRest⟩ := inductionHypothesis later
        exact ⟨some, fun other isOther =>
          List.mem_cons_of_mem _ (inRest other isOther)⟩
  | case4 high low rest noGroups inductionHypothesis =>
      rw [List.mem_singleton] at member
      subst member
      exact ⟨List.cons_ne_nil _ _,
        List.forall_mem_singleton.mpr List.mem_cons_self⟩

/-- There is one group for each high surrogate. -/
theorem ascending_groupByHigh
    (ordered : blocks.Pairwise fun earlier later => earlier.1 ≤ later.1) :
    (groupByHigh blocks).Pairwise fun earlier later => earlier.1 < later.1 := by
  fun_induction groupByHigh blocks with
  | case1 => exact .nil
  | case2 low rest next lows groups restGroups inductionHypothesis =>
      have ascending := inductionHypothesis (List.pairwise_cons.mp ordered).2
      rw [restGroups, List.pairwise_cons] at ascending
      exact List.pairwise_cons.mpr ascending
  | case3 high low rest next lows groups restGroups differs
      inductionHypothesis =>
      obtain ⟨least, restOrdered⟩ := List.pairwise_cons.mp ordered
      have ascending := inductionHypothesis restOrdered
      rw [restGroups] at ascending
      have isNext : (next, lows) ∈ groupByHigh rest :=
        restGroups ▸ List.mem_cons_self
      obtain ⟨someLow, inRest⟩ := mem_of_mem_groupByHigh isNext
      obtain ⟨nextLow, isLow⟩ := List.exists_mem_of_ne_nil lows someLow
      have atMost : high ≤ next := least _ (inRest nextLow isLow)
      have before : high < next := Nat.lt_of_le_of_ne atMost differs
      refine List.pairwise_cons.mpr ⟨List.forall_mem_cons.mpr
        ⟨before, fun group isGroup => ?_⟩, ascending⟩
      exact Nat.lt_trans before
        ((List.pairwise_cons.mp ascending).1 group isGroup)
  | case4 high low rest noGroups inductionHypothesis =>
      exact List.pairwise_singleton _ _

/-! ## Runs -/

section Runs

variable {groups : List (Nat × RangeList)} {run : CodeRange × RangeList}

/-- A run starts at the high surrogate of a group with its low ones. -/
theorem exists_of_mem_joinHighs
    (member : run ∈ joinHighs groups) :
    ∃ group ∈ groups, group.1 = run.1.first ∧ group.2 = run.2 := by
  fun_induction joinHighs groups with
  | case1 => exact absurd member List.not_mem_nil
  | case2 high lows rest range others runs restRuns joins
      inductionHypothesis =>
      rcases List.mem_cons.mp member with rfl | later
      · exact ⟨(high, lows), List.mem_cons_self, rfl, rfl⟩
      · obtain ⟨group, isGroup, same⟩ := inductionHypothesis
          (restRuns ▸ List.mem_cons_of_mem _ later)
        exact ⟨group, List.mem_cons_of_mem _ isGroup, same⟩
  | case3 high lows rest range others runs restRuns differs
      inductionHypothesis =>
      rcases List.mem_cons.mp member with rfl | later
      · exact ⟨(high, lows), List.mem_cons_self, rfl, rfl⟩
      · obtain ⟨group, isGroup, same⟩ := inductionHypothesis (restRuns ▸ later)
        exact ⟨group, List.mem_cons_of_mem _ isGroup, same⟩
  | case4 high lows rest noRuns inductionHypothesis =>
      rw [List.mem_singleton] at member
      subst member
      exact ⟨(high, lows), List.mem_cons_self, rfl, rfl⟩

/-- Each run ends before the next one starts. -/
theorem ascending_joinHighs
    (ascending : groups.Pairwise fun earlier later => earlier.1 < later.1) :
    (joinHighs groups).Pairwise fun earlier later =>
      earlier.1.last < later.1.first := by
  fun_induction joinHighs groups with
  | case1 => exact .nil
  | case2 high lows rest range others runs restRuns joins
      inductionHypothesis =>
      have restAscending :=
        inductionHypothesis (List.pairwise_cons.mp ascending).2
      rw [restRuns, List.pairwise_cons] at restAscending
      exact List.pairwise_cons.mpr restAscending
  | case3 high lows rest range others runs restRuns differs
      inductionHypothesis =>
      obtain ⟨before, restAscending⟩ := List.pairwise_cons.mp ascending
      have runsAscending := inductionHypothesis restAscending
      rw [restRuns] at runsAscending
      refine List.pairwise_cons.mpr ⟨fun run isRun => ?_, runsAscending⟩
      obtain ⟨group, isGroup, starts, -⟩ :=
        exists_of_mem_joinHighs (restRuns ▸ isRun)
      exact starts ▸ before group isGroup
  | case4 high lows rest noRuns inductionHypothesis =>
      exact List.pairwise_singleton _ _

/-- A run that touches the next one has other low surrogates. -/
theorem isChain_joinHighs :
    (joinHighs groups).IsChain fun earlier later =>
      earlier.1.last + 1 = later.1.first → earlier.2 ≠ later.2 := by
  fun_induction joinHighs groups with
  | case1 => exact .nil
  | case2 high lows rest range others runs restRuns joins
      inductionHypothesis =>
      rw [restRuns] at inductionHypothesis
      obtain ⟨-, rfl⟩ := joins
      cases runs with
      | nil => exact List.isChain_singleton _
      | cons run runs =>
          rw [List.isChain_cons_cons] at inductionHypothesis ⊢
          exact inductionHypothesis
  | case3 high lows rest range others runs restRuns differs
      inductionHypothesis =>
      rw [restRuns] at inductionHypothesis
      exact List.isChain_cons_cons.mpr
        ⟨fun touches same => differs ⟨touches, same⟩, inductionHypothesis⟩
  | case4 high lows rest noRuns inductionHypothesis =>
      exact List.isChain_singleton _

end Runs

/-- Runs of high surrogates, ascending and disjoint, each with some low
surrogates, which are other ones in runs that touch. -/
structure SurrogateRuns (runs : List (CodeRange × RangeList)) : Prop where
  ascending : runs.Pairwise fun earlier later =>
    earlier.1.last < later.1.first
  nonempty : ∀ run ∈ runs, run.1.first ≤ run.1.last
  high : ∀ run ∈ runs, ∀ unit, run.1.contains unit = true →
    isHighSurrogate unit = true
  normal : ∀ run ∈ runs, run.2.Normal ∧ run.2.ranges ≠ []
  low : ∀ run ∈ runs, ∀ unit, run.2.contains unit = true →
    isLowSurrogate unit = true
  joined : runs.IsChain fun earlier later =>
    earlier.1.last + 1 = later.1.first → earlier.2 ≠ later.2

theorem isHighSurrogate_highSurrogate
    {point : Nat}
    (known : point ≤ maxCodePoint) :
    isHighSurrogate (highSurrogate point) = true := by
  have bound : point ≤ 0x10FFFF := known
  have high := highSurrogate_eq point
  rw [isHighSurrogate_iff, surrogateFirst, lowSurrogateFirst]
  omega

theorem isLowSurrogate_lowSurrogate (point : Nat) :
    isLowSurrogate (lowSurrogate point) = true := by
  have low := lowSurrogate_eq point
  rw [isLowSurrogate_iff, lowSurrogateFirst, surrogateLast]
  omega

/-- A run has the low surrogates of some blocks. -/
theorem normal_of_mem_surrogatePairs
    {run : CodeRange × RangeList}
    (normal : set.Normal)
    (above : ∀ range ∈ set.ranges, supplementaryFirst ≤ range.first)
    (member : run ∈ surrogatePairs set) :
    run.2.Normal ∧ run.2.ranges ≠ [] := by
  obtain ⟨_, isGroup, -, sameLows⟩ := exists_of_mem_joinHighs member
  obtain ⟨⟨high, lows⟩, isRow, rfl⟩ := List.mem_map.mp isGroup
  obtain ⟨someLow, inBlocks⟩ := mem_of_mem_groupByHigh isRow
  have lowsNonempty : ∀ low ∈ lows, low.first ≤ low.last := by
    intro low isLow
    obtain ⟨range, isRange, isBlock⟩ :=
      List.mem_flatMap.mp (inBlocks low isLow)
    exact (bounds_of_mem_surrogateBlocks (normal.nonempty range isRange)
      (above range isRange) isBlock).2.2
  rw [← sameLows]
  refine ⟨RangeList.normal_ofRanges lowsNonempty, fun nothing => ?_⟩
  obtain ⟨low, isLow⟩ := List.exists_mem_of_ne_nil lows someLow
  have covered : (RangeList.ofRanges lows).contains low.first = true :=
    RangeList.contains_ofRanges.mpr
      ⟨low, isLow, Nat.le_refl _, lowsNonempty low isLow⟩
  rw [RangeList.contains_iff, nothing] at covered
  exact RangeList.not_covers_nil covered

/-- Supplementary code points make runs of high surrogates in order. -/
theorem surrogateRuns_surrogatePairs
    (normal : set.Normal)
    (within : ∀ range ∈ set.ranges,
      supplementaryFirst ≤ range.first ∧ range.last ≤ maxCodePoint) :
    SurrogateRuns (surrogatePairs set) := by
  have above : ∀ range ∈ set.ranges, supplementaryFirst ≤ range.first :=
    fun range member => (within range member).1
  have ascending : (surrogatePairs set).Pairwise fun earlier later =>
      earlier.1.last < later.1.first :=
    ascending_joinHighs (List.pairwise_map.mpr
      (ascending_groupByHigh (ordered_surrogateBlocks normal above)))
  have nonempty : ∀ run ∈ surrogatePairs set, run.1.first ≤ run.1.last :=
    nonempty_joinHighs
  -- Every high surrogate of a run forms a pair with every low one.
  have points {run} (isRun : run ∈ surrogatePairs set) {high low}
      (inHighs : run.1.contains high = true)
      (inLows : run.2.contains low = true) :
      ∃ point ≤ maxCodePoint, highSurrogate point = high ∧
        lowSurrogate point = low := by
    obtain ⟨point, inSet, isPair⟩ :=
      (pairs_surrogatePairs normal above).mp ⟨run, isRun, inHighs, inLows⟩
    obtain ⟨range, isRange, -, below⟩ := RangeList.contains_iff.mp inSet
    exact ⟨point, Nat.le_trans below (within range isRange).2, isPair⟩
  constructor
  · exact ascending
  · exact nonempty
  · intro run isRun high inHighs
    obtain ⟨lowsNormal, someLows⟩ :=
      normal_of_mem_surrogatePairs normal above isRun
    obtain ⟨lows, isLows⟩ := List.exists_mem_of_ne_nil _ someLows
    obtain ⟨point, known, rfl, -⟩ := points isRun inHighs
      (RangeList.contains_iff.mpr (lowsNormal.first_covers isLows))
    exact isHighSurrogate_highSurrogate known
  · exact fun run isRun => normal_of_mem_surrogatePairs normal above isRun
  · intro run isRun low inLows
    have inHighs : run.1.contains run.1.first = true :=
      CodeRange.contains_iff.mpr ⟨Nat.le_refl _, nonempty run isRun⟩
    obtain ⟨point, -, -, rfl⟩ := points isRun inHighs inLows
    exact isLowSurrogate_lowSurrogate point
  · exact isChain_joinHighs

/-! ## Surrogates without a partner -/

/-- A surrogate that is not half of a pair. -/
def UnpairedAt (units : List CodeUnit) (index : Nat) : Prop :=
  ∃ unit, units[index]? = some unit ∧ isSurrogate unit.toNat = true ∧
    ¬ (isHighSurrogate unit.toNat = true ∧ ∃ next,
      units[index + 1]? = some next ∧ isLowSurrogate next.toNat = true) ∧
    ¬ (isLowSurrogate unit.toNat = true ∧ 0 < index ∧ ∃ previous,
      units[index - 1]? = some previous ∧
        isHighSurrogate previous.toNat = true)

theorem not_unpairedAt_single
    {unit : CodeUnit}
    (whole : isSurrogate unit.toNat = false)
    (index : Nat) :
    ¬ UnpairedAt [unit] index := by
  rintro ⟨found, isFound, inGap, -⟩
  cases index with
  | zero =>
      obtain rfl := Option.some.inj isFound
      rw [whole] at inGap
      cases inGap
  | succ index => cases isFound

theorem not_unpairedAt_pair
    {high low : CodeUnit}
    (isHigh : isHighSurrogate high.toNat = true)
    (isLow : isLowSurrogate low.toNat = true)
    (index : Nat) :
    ¬ UnpairedAt [high, low] index := by
  rintro ⟨found, isFound, -, noLow, noHigh⟩
  cases index with
  | zero =>
      obtain rfl := Option.some.inj isFound
      exact noLow ⟨isHigh, low, rfl, isLow⟩
  | succ index =>
      cases index with
      | zero =>
          obtain rfl := Option.some.inj isFound
          exact noHigh ⟨isLow, Nat.one_pos, high, rfl, isHigh⟩
      | succ index => cases isFound

/-- The surrogates of a character have each other. -/
theorem not_unpairedAt_encodePoint
    {point : Nat}
    (scalar : IsScalar point)
    (index : Nat) :
    ¬ UnpairedAt (Text.encodePoint point) index := by
  obtain ⟨known, outsideGap⟩ := scalar
  unfold Text.encodePoint
  split
  · next single =>
      refine not_unpairedAt_single ?_ index
      rw [toNat_toUInt16 single, outsideGap]
  · have isHigh := isHighSurrogate_highSurrogate known
    have isLow := isLowSurrogate_lowSurrogate point
    have highBound : highSurrogate point < supplementaryFirst :=
      Nat.lt_trans (isHighSurrogate_iff.mp isHigh).2 (by decide)
    have lowBound : lowSurrogate point < supplementaryFirst :=
      Nat.lt_of_le_of_lt (isLowSurrogate_iff.mp isLow).2 (by decide)
    refine not_unpairedAt_pair ?_ ?_ index
    · rw [toNat_toUInt16 highBound, isHigh]
    · rw [toNat_toUInt16 lowBound, isLow]

/-! ## Paths through the fragment of a set -/

variable [CharacterData]

namespace Nfa

variable {owner : Option Nat} {base nfa : Nfa}
  {holds : Nat → List CodeUnit → Prop}

/-- What is accepted where makes no difference to the paths. -/
theorem Path.setAccept
    {length : Nat}
    {first last : Place}
    (path : nfa.Path holds length first last)
    (node : Nat)
    (accept : Accept) :
    (nfa.setAccept node accept).Path holds length first last := by
  induction path with
  | here => exact .here
  | step step _ inductionHypothesis =>
      refine .step ?_ inductionHypothesis
      rwa [Step, edges_setAccept]

theorem Path.eq_of_no_edges
    {length : Nat}
    {first last : Place}
    (path : nfa.Path holds length first last)
    (stuck : (nfa.node first.1).edges = []) :
    last = first := by
  cases path with
  | here => rfl
  | step step _ =>
      obtain ⟨edge, member, -⟩ := step
      rw [stuck] at member
      exact absurd member List.not_mem_nil

/-- From the entry to the exit of the fragment of a set lead the paths over its
characters. -/
theorem reaches_compileSet_iff
    {anyCase : Bool}
    {characters : CharSet}
    {before after : List CodeUnit}
    (apart : CharacterData.SurrogatesApart)
    (normal : characters.Normal)
    (isCase : base.anyCase = anyCase) :
    (base.compileSet owner characters).1.Reaches holds
        ((base.compileSet owner characters).2.entry, before)
        ((base.compileSet owner characters).2.exit, after) ↔
      (characters.inCase anyCase).Reads before after := by
  have builds := @builds_compileSet _ owner base characters
  have recognizes {final : Nfa} :=
    @recognizes_compileSet _ owner base final anyCase characters holds apart
      normal isCase
  constructor
  · rintro ⟨length, path⟩
    -- A path to the exit shows what was read once the exit accepts.
    have later : Later base (base.compileSet owner characters).2.entry
        (base.compileSet owner characters).2.exit
        (base.compileSet owner characters).1
        ((base.compileSet owner characters).1.setAccept
          (base.compileSet owner characters).2.exit .condition) :=
      (Extends.refl _ _).setAccept (.inl (.inr rfl)) _
    rcases (recognizes later).sound (path.setAccept _ .condition) with
      noAccept | ⟨middle, short, -, reads, onward⟩
    · rw [node_setAccept_self builds.inside] at noAccept
      cases noAccept
    · have stuck : (((base.compileSet owner characters).1.setAccept
          (base.compileSet owner characters).2.exit .condition).node
            (base.compileSet owner characters).2.exit).edges = [] := by
        rw [edges_setAccept, builds.record]
      obtain ⟨-, rfl⟩ := Prod.mk.inj (onward.eq_of_no_edges stuck)
      exact reads
  · exact (recognizes (.refl _ _)).complete

/-- The fragment of a set reads exactly the units of one character of the set,
so that no path through it reads a surrogate without its partner; and the runs
of high surrogates that it is made of are ascending and disjoint, and stand
for the supplementary members. -/
theorem compileSet_reads_characters
    (apart : CharacterData.SurrogatesApart)
    (base : Nfa)
    (caseMatters : base.anyCase = false)
    (owner : Option Nat)
    (characters : CharSet)
    (normal : characters.Normal)
    (holds : Nat → List CodeUnit → Prop) :
    let result := (base.compileSet owner characters).1
    let fragment := (base.compileSet owner characters).2
    (∀ units rest : List CodeUnit,
      result.Reaches holds (fragment.entry, units ++ rest)
          (fragment.exit, rest) ↔
        ∃ point, IsScalar point ∧ characters.contains point = true ∧
          units = Text.encodePoint point) ∧
      (∀ units rest : List CodeUnit,
        result.Reaches holds (fragment.entry, units ++ rest)
            (fragment.exit, rest) →
          ∀ index, ¬ UnpairedAt units index) ∧
      ∀ supplementary : RangeList, supplementary.Normal →
        (∀ range ∈ supplementary.ranges,
          supplementaryFirst ≤ range.first ∧ range.last ≤ maxCodePoint) →
        SurrogateRuns (surrogatePairs supplementary) ∧
          ∀ high low, Pairs (surrogatePairs supplementary) high low ↔
            ∃ point, supplementary.contains point = true ∧
              highSurrogate point = high ∧ lowSurrogate point = low := by
  intro result fragment
  have reads (units rest : List CodeUnit) :
      result.Reaches holds (fragment.entry, units ++ rest)
          (fragment.exit, rest) ↔
        ∃ point, IsScalar point ∧ characters.contains point = true ∧
          units = Text.encodePoint point := by
    refine (reaches_compileSet_iff apart normal caseMatters).trans ?_
    simp only [CharSet.Reads, CharSet.inCase, Bool.false_eq_true, if_false,
      List.append_cancel_right_eq]
  refine ⟨reads, fun units rest reaches index => ?_,
    fun supplementary supplementaryNormal within =>
      ⟨surrogateRuns_surrogatePairs supplementaryNormal within,
        fun high low => pairs_surrogatePairs supplementaryNormal
          fun range member => (within range member).1⟩⟩
  obtain ⟨point, scalar, -, rfl⟩ := (reads units rest).mp reaches
  exact not_unpairedAt_encodePoint scalar index

/-- The letters `a` to `c`, the last character of the first high surrogate and
two of the next one; these two are excluded, but the second one is excluded from
the exclusion. -/
def chainedCharacters : CharSet :=
  .except ⟨⟨[⟨0x61, 0x63⟩, ⟨0x103FF, 0x10401⟩]⟩, .empty⟩
    (.except ⟨⟨[⟨0x10400, 0x10401⟩]⟩, .empty⟩
      (.plain ⟨⟨[⟨0x10401, 0x10401⟩]⟩, .empty⟩))

omit [CharacterData] in
theorem compileSet_reads_characters_chained :
    let _ : CharacterData := .ascii
    let result := ((empty false).compileSet none chainedCharacters).1
    let fragment := ((empty false).compileSet none chainedCharacters).2
    (CharacterData.SurrogatesApart ∧ (empty false).anyCase = false ∧
        chainedCharacters.Normal) ∧
      result.Reaches (fun _ _ => True) (fragment.entry, [0xD801, 0xDC01])
        (fragment.exit, []) ∧
      ¬ result.Reaches (fun _ _ => True) (fragment.entry, [0xD801])
        (fragment.exit, []) ∧
      SurrogateRuns (surrogatePairs ⟨[⟨0x103FF, 0x10401⟩]⟩) := by
  let _ : CharacterData := .ascii
  have apart : CharacterData.SurrogatesApart :=
    CharacterData.surrogatesApart_ascii
  have normal : chainedCharacters.Normal := by
    refine ⟨.cons (.singleton (by decide)) (by decide) (by decide),
      .singleton (by decide), .singleton (by decide)⟩
  obtain ⟨reads, paired, runs⟩ := compileSet_reads_characters apart
    (empty false) rfl none chainedCharacters normal fun _ _ => True
  refine ⟨⟨apart, rfl, normal⟩, ?_, fun reaches => ?_, ?_⟩
  · refine (reads [0xD801, 0xDC01] []).mpr ⟨0x10401, ⟨?_, ?_⟩, ?_, ?_⟩
    · decide
    · decide
    · decide
    · decide
  · refine paired [0xD801] [] reaches 0 ⟨0xD801, rfl, by decide, ?_, ?_⟩
    · rintro ⟨-, next, impossible, -⟩
      cases impossible
    · rintro ⟨impossible, -⟩
      exact absurd impossible (by decide)
  · refine (runs _ (.singleton (by decide)) ?_).1
    exact List.forall_mem_singleton.mpr (by decide)

end Nfa
end Lexical
end ParserGenerator
