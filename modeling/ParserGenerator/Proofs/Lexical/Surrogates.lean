import Mathlib.Data.List.Basic
import ParserGenerator.Lexical.Nfa
import ParserGenerator.Proofs.RangeList

/-!
# Pairs of surrogates

The runs of high surrogates with their low surrogates stand for exactly the
supplementary code points that they are made from. Each stage (the blocks of
a range, the groups of one high surrogate, the joined runs) keeps the pairs
that it stands for.
-/

namespace ParserGenerator
namespace Lexical

variable {high low : Nat}

theorem highSurrogate_eq (point : Nat) :
    highSurrogate point = 0xD800 + (point - 0x10000) / 0x400 := rfl

theorem lowSurrogate_eq (point : Nat) :
    lowSurrogate point = 0xDC00 + (point - 0x10000) % 0x400 := rfl

/-- A high and a low surrogate are those of a point of a range. -/
theorem exists_surrogateBlocks
    {range : CodeRange}
    (nonempty : range.first ≤ range.last)
    (above : supplementaryFirst ≤ range.first) :
    (∃ block ∈ surrogateBlocks range,
        block.1 = high ∧ block.2.contains low = true) ↔
      ∃ point, range.first ≤ point ∧ point ≤ range.last ∧
        highSurrogate point = high ∧ lowSurrogate point = low := by
  have atLeast : 0x10000 ≤ range.first := above
  have leastLow : lowSurrogateFirst = 0xDC00 := rfl
  have greatestLow : surrogateLast = 0xDFFF := rfl
  have firstHigh := highSurrogate_eq range.first
  have firstLow := lowSurrogate_eq range.first
  have lastHigh := highSurrogate_eq range.last
  have lastLow := lowSurrogate_eq range.last
  simp only [surrogateBlocks, List.mem_map, List.mem_range,
    CodeRange.contains_iff]
  constructor
  · rintro ⟨_, ⟨offset, inside, rfl⟩, atHigh, lowest, highest⟩
    refine ⟨0x10000 + (high - 0xD800) * 0x400 + (low - 0xDC00), ?_⟩
    rw [highSurrogate_eq, lowSurrogate_eq]
    dsimp only at atHigh lowest highest
    split at lowest <;> split at highest <;> omega
  · rintro ⟨point, lower, upper, rfl, rfl⟩
    have pointHigh := highSurrogate_eq point
    have pointLow := lowSurrogate_eq point
    refine ⟨_, ⟨highSurrogate point - highSurrogate range.first, ?_, rfl⟩, ?_,
      ?_, ?_⟩
    · omega
    · show highSurrogate range.first + _ = _
      omega
    · dsimp only
      split <;> omega
    · dsimp only
      split <;> omega

theorem exists_groupByHigh {blocks : List (Nat × CodeRange)} :
    (∃ group ∈ groupByHigh blocks,
        group.1 = high ∧ RangeList.Covers group.2 low) ↔
      ∃ block ∈ blocks, block.1 = high ∧ block.2.contains low = true := by
  fun_induction groupByHigh blocks with
  | case1 => simp
  | case2 lowRange rest next lows groups restGroups inductionHypothesis =>
      rw [restGroups] at inductionHypothesis
      simp only [List.exists_mem_cons_iff, RangeList.covers_cons,
        CodeRange.contains_iff] at inductionHypothesis ⊢
      rw [← inductionHypothesis, and_or_left, or_assoc]
  | case3 other lowRange rest next lows groups restGroups differs
      inductionHypothesis =>
      rw [restGroups] at inductionHypothesis
      rw [List.exists_mem_cons_iff, inductionHypothesis,
        List.exists_mem_cons_iff]
      simp [CodeRange.contains_iff]
  | case4 other lowRange rest noGroups inductionHypothesis =>
      rw [noGroups] at inductionHypothesis
      rw [List.exists_mem_cons_iff, List.exists_mem_cons_iff,
        inductionHypothesis]
      simp [CodeRange.contains_iff]

/-- A high and a low surrogate form a pair of one of some runs. -/
def Pairs (runs : List (CodeRange × RangeList)) (high low : Nat) : Prop :=
  ∃ run ∈ runs, run.1.contains high = true ∧ run.2.contains low = true

theorem nonempty_joinHighs
    {groups : List (Nat × RangeList)} :
    ∀ run ∈ joinHighs groups, run.1.first ≤ run.1.last := by
  fun_induction joinHighs groups with
  | case1 => simp
  | case2 other lows rest range others runs restRuns joins
      inductionHypothesis =>
      rw [restRuns] at inductionHypothesis
      obtain ⟨headNonempty, tailNonempty⟩ :=
        List.forall_mem_cons.mp inductionHypothesis
      refine List.forall_mem_cons.mpr ⟨?_, tailNonempty⟩
      show other ≤ range.last
      have touches : other + 1 = range.first := joins.1
      have ends : range.first ≤ range.last := headNonempty
      omega
  | case3 other lows rest range others runs restRuns differs
      inductionHypothesis =>
      rw [restRuns] at inductionHypothesis
      exact List.forall_mem_cons.mpr ⟨Nat.le_refl other, inductionHypothesis⟩
  | case4 other lows rest noRuns inductionHypothesis =>
      exact List.forall_mem_singleton.mpr (Nat.le_refl other)

theorem pairs_joinHighs {groups : List (Nat × RangeList)} :
    Pairs (joinHighs groups) high low ↔
      ∃ group ∈ groups, group.1 = high ∧ group.2.contains low = true := by
  fun_induction joinHighs groups with
  | case1 => simp [Pairs]
  | case2 other lows rest range others runs restRuns joins
      inductionHypothesis =>
      have nonempty : range.first ≤ range.last :=
        nonempty_joinHighs (range, others) (restRuns ▸ List.mem_cons_self)
      rw [restRuns] at inductionHypothesis
      simp only [Pairs, List.exists_mem_cons_iff, CodeRange.contains_iff]
        at inductionHypothesis ⊢
      rw [← inductionHypothesis, ← or_assoc, joins.2, ← or_and_right]
      refine or_congr_left (and_congr_left fun _ => ?_)
      omega
  | case3 other lows rest range others runs restRuns differs
      inductionHypothesis =>
      rw [restRuns] at inductionHypothesis
      rw [Pairs, List.exists_mem_cons_iff, ← Pairs, inductionHypothesis,
        List.exists_mem_cons_iff, CodeRange.contains_single]
  | case4 other lows rest noRuns inductionHypothesis =>
      rw [noRuns] at inductionHypothesis
      rw [Pairs, List.exists_mem_cons_iff, ← Pairs, inductionHypothesis,
        List.exists_mem_cons_iff, CodeRange.contains_single]

/-- The runs of a set are the pairs of its members. -/
theorem pairs_surrogatePairs
    {set : RangeList}
    (normal : set.Normal)
    (above : ∀ range ∈ set.ranges, supplementaryFirst ≤ range.first) :
    Pairs (surrogatePairs set) high low ↔
      ∃ point, set.contains point = true ∧
        highSurrogate point = high ∧ lowSurrogate point = low := by
  have blocks (range : CodeRange) (member : range ∈ set.ranges) :
      (∃ block ∈ surrogateBlocks range,
          block.1 = high ∧ block.2.contains low = true) ↔ _ :=
    exists_surrogateBlocks (normal.nonempty range member) (above range member)
  calc Pairs (surrogatePairs set) high low
    _ ↔ ∃ group ∈ groupByHigh (set.ranges.flatMap surrogateBlocks),
          group.1 = high ∧ RangeList.Covers group.2 low := by
        rw [surrogatePairs, pairs_joinHighs]
        simp
    _ ↔ ∃ block ∈ set.ranges.flatMap surrogateBlocks,
          block.1 = high ∧ block.2.contains low = true := exists_groupByHigh
    _ ↔ ∃ point, set.contains point = true ∧
          highSurrogate point = high ∧ lowSurrogate point = low := by
        constructor
        · rintro ⟨block, member, isPair⟩
          obtain ⟨range, inSet, inBlocks⟩ := List.mem_flatMap.mp member
          obtain ⟨point, lower, upper, isPoint⟩ :=
            (blocks range inSet).mp ⟨block, inBlocks, isPair⟩
          exact ⟨point, RangeList.contains_iff.mpr ⟨range, inSet, lower, upper⟩,
            isPoint⟩
        · rintro ⟨point, member, isPoint⟩
          obtain ⟨range, inSet, lower, upper⟩ := RangeList.contains_iff.mp member
          obtain ⟨block, inBlocks, isPair⟩ :=
            (blocks range inSet).mpr ⟨point, lower, upper, isPoint⟩
          exact ⟨block, List.mem_flatMap.mpr ⟨range, inSet, inBlocks⟩, isPair⟩

end Lexical
end ParserGenerator
