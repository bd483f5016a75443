import ParserGenerator.RangeList

/-!
# The algebra of range lists

Range lists in normal form are non-empty ranges, ascending and with a gap after
each. Every operation keeps the normal form and has the members that its name
says.
-/

namespace ParserGenerator

namespace CodeRange

@[simp] theorem contains_iff {range : CodeRange} {point : Nat} :
    range.contains point = true ↔ range.first ≤ point ∧ point ≤ range.last := by
  simp [contains]

theorem contains_single {member point : Nat} :
    (single member).contains point = true ↔ member = point := by
  rw [contains_iff, single]
  exact ⟨fun bounds => Nat.le_antisymm bounds.1 bounds.2,
    fun same => ⟨Nat.le_of_eq same, Nat.le_of_eq same.symm⟩⟩

theorem le_iff {left right : CodeRange} :
    left.le right = true ↔ left.first < right.first ∨
      left.first = right.first ∧ left.last ≤ right.last := by
  simp [le]

theorem le_trans
    (first second third : CodeRange)
    (less : first.le second = true)
    (lessAgain : second.le third = true) :
    first.le third = true := by
  rw [le_iff] at less lessAgain ⊢
  omega

theorem le_total (left right : CodeRange) :
    (left.le right || right.le left) = true := by
  rw [Bool.or_eq_true, le_iff, le_iff]
  omega

end CodeRange

namespace RangeList

/-- A point lies in one of some ranges. -/
def Covers (ranges : List CodeRange) (point : Nat) : Prop :=
  ∃ range ∈ ranges, range.first ≤ point ∧ point ≤ range.last

/-- Non-empty ranges in ascending order with a gap after each. -/
structure Apart (ranges : List CodeRange) : Prop where
  /-- No range is empty. -/
  nonempty : ∀ range ∈ ranges, range.first ≤ range.last
  /-- Ranges neither overlap nor touch. -/
  gaps : ranges.Pairwise fun left right => left.last + 1 < right.first

/-- The normal form of a range list. -/
def Normal (set : RangeList) : Prop := Apart set.ranges

variable {point : Nat} {ranges rest lefts rights : List CodeRange}
  {range current : CodeRange}

theorem contains_iff {set : RangeList} :
    set.contains point = true ↔ Covers set.ranges point := by
  simp [contains, Covers]

@[simp] theorem not_covers_nil : ¬ Covers [] point := by
  simp [Covers]

@[simp] theorem covers_cons :
    Covers (range :: rest) point ↔
      range.first ≤ point ∧ point ≤ range.last ∨ Covers rest point := by
  simp [Covers]

theorem covers_mk_cons {first last : Nat} :
    Covers (⟨first, last⟩ :: rest) point ↔
      first ≤ point ∧ point ≤ last ∨ Covers rest point :=
  covers_cons

theorem Covers.lower
    {bound : Nat}
    (covers : Covers ranges point)
    (bounded : ∀ range ∈ ranges, bound ≤ range.first) :
    bound ≤ point := by
  obtain ⟨range, member, above, -⟩ := covers
  exact Nat.le_trans (bounded range member) above

namespace Apart

theorem nil : Apart [] := ⟨by simp, .nil⟩

theorem singleton {range : CodeRange} (nonempty : range.first ≤ range.last) :
    Apart [range] := by
  refine ⟨fun other member => ?_, List.pairwise_singleton _ _⟩
  rw [List.mem_singleton.mp member]
  exact nonempty

theorem tail (apart : Apart (range :: rest)) : Apart rest :=
  ⟨fun other member => apart.nonempty other (List.mem_cons_of_mem range member),
    (List.pairwise_cons.mp apart.gaps).2⟩

theorem head (apart : Apart (range :: rest)) : range.first ≤ range.last :=
  apart.nonempty range List.mem_cons_self

/-- What is covered after a range lies beyond it. -/
theorem beyond
    (apart : Apart (range :: rest))
    (covers : Covers rest point) :
    range.last + 1 < point := by
  refine covers.lower fun other member => ?_
  exact (List.pairwise_cons.mp apart.gaps).1 other member

/-- Nothing is covered before the first range. -/
theorem not_covers_before
    (apart : Apart (range :: rest))
    (before : point < range.first) :
    ¬ Covers (range :: rest) point := by
  have nonempty := apart.head
  intro covers
  rcases covers_cons.mp covers with inside | later
  · omega
  · have after := apart.beyond later
    omega

theorem cons
    (apart : Apart rest)
    (nonempty : range.first ≤ range.last)
    (before : ∀ other ∈ rest, range.last + 1 < other.first) :
    Apart (range :: rest) := by
  refine ⟨fun other member => ?_, List.pairwise_cons.mpr ⟨before, apart.gaps⟩⟩
  rcases List.mem_cons.mp member with rfl | later
  · exact nonempty
  · exact apart.nonempty other later

/-- The start of a range is covered. -/
theorem first_covers
    (apart : Apart ranges)
    (member : range ∈ ranges) :
    Covers ranges range.first :=
  ⟨range, member, Nat.le_refl _, apart.nonempty range member⟩

end Apart

/-! ## Merging -/

/-- Merging covers what the ranges cover. -/
theorem covers_absorb
    (ordered : (current :: rest).Pairwise fun left right =>
      left.first ≤ right.first) :
    Covers (absorb current rest) point ↔ Covers (current :: rest) point := by
  induction rest generalizing current with
  | nil => rfl
  | cons next rest inductionHypothesis =>
      obtain ⟨before, restOrdered⟩ := List.pairwise_cons.mp ordered
      obtain ⟨-, laterOrdered⟩ := List.pairwise_cons.mp restOrdered
      have starts := before next List.mem_cons_self
      unfold absorb
      split
      · next touches =>
          have merged : ((⟨current.first, max current.last next.last⟩ ::
              rest : List CodeRange)).Pairwise fun left right =>
                left.first ≤ right.first :=
            List.pairwise_cons.mpr ⟨fun other member =>
              before other (List.mem_cons_of_mem next member), laterOrdered⟩
          rw [inductionHypothesis merged]
          simp only [covers_cons, ← or_assoc]
          refine or_congr_left ?_
          omega
      · rw [covers_cons, inductionHypothesis restOrdered]
        simp only [covers_cons]

/-- Merged ranges start where the first one does and are apart. -/
theorem apart_absorb
    (ordered : (current :: rest).Pairwise fun left right =>
      left.first ≤ right.first)
    (nonempty : ∀ range ∈ current :: rest, range.first ≤ range.last) :
    Apart (absorb current rest) ∧
      ∀ range ∈ absorb current rest, current.first ≤ range.first := by
  induction rest generalizing current with
  | nil => simpa [absorb] using Apart.singleton (nonempty current (by simp))
  | cons next rest inductionHypothesis =>
      obtain ⟨before, restOrdered⟩ := List.pairwise_cons.mp ordered
      obtain ⟨-, laterOrdered⟩ := List.pairwise_cons.mp restOrdered
      have starts := before next List.mem_cons_self
      have currentNonempty := nonempty current List.mem_cons_self
      unfold absorb
      split
      · refine inductionHypothesis (List.pairwise_cons.mpr
          ⟨fun other member => before other (List.mem_cons_of_mem next member),
            laterOrdered⟩) fun range member => ?_
        rcases List.mem_cons.mp member with rfl | later
        · exact Nat.le_trans currentNonempty (Nat.le_max_left _ _)
        · exact nonempty range
            (List.mem_cons_of_mem _ (List.mem_cons_of_mem next later))
      · next gap =>
          obtain ⟨apart, starting⟩ := inductionHypothesis restOrdered
            fun range member => nonempty range (List.mem_cons_of_mem _ member)
          refine ⟨apart.cons currentNonempty fun range member => ?_, ?_⟩
          · have after := starting range member
            omega
          · intro range member
            rcases List.mem_cons.mp member with rfl | later
            · exact Nat.le_refl _
            · exact Nat.le_trans starts (starting range later)

theorem covers_coalesce
    (ordered : ranges.Pairwise fun left right => left.first ≤ right.first) :
    Covers (coalesce ranges) point ↔ Covers ranges point := by
  cases ranges with
  | nil => rfl
  | cons range rest => exact covers_absorb ordered

theorem apart_coalesce
    (ordered : ranges.Pairwise fun left right => left.first ≤ right.first)
    (nonempty : ∀ range ∈ ranges, range.first ≤ range.last) :
    Apart (coalesce ranges) := by
  cases ranges with
  | nil => exact .nil
  | cons range rest => exact (apart_absorb ordered nonempty).1

theorem ordered_of_le
    (ordered : ranges.Pairwise fun left right => left.le right = true) :
    ranges.Pairwise fun left right => left.first ≤ right.first := by
  refine ordered.imp fun {left right} less => ?_
  rw [CodeRange.le_iff] at less
  omega

theorem ordered_mergeSort (ranges : List CodeRange) :
    (ranges.mergeSort CodeRange.le).Pairwise fun left right =>
      left.first ≤ right.first :=
  ordered_of_le
    (List.pairwise_mergeSort CodeRange.le_trans CodeRange.le_total ranges)

@[simp] theorem contains_ofRanges :
    (ofRanges ranges).contains point = true ↔ Covers ranges point := by
  rw [contains_iff, ofRanges, covers_coalesce (ordered_mergeSort ranges)]
  simp [Covers]

theorem normal_ofRanges
    (nonempty : ∀ range ∈ ranges, range.first ≤ range.last) :
    (ofRanges ranges).Normal := by
  refine apart_coalesce (ordered_mergeSort ranges) fun range member => ?_
  exact nonempty range (List.mem_mergeSort.mp member)

/-! ## Union -/

section Union

variable {left right : RangeList}

theorem ordered_merge
    (leftNormal : left.Normal)
    (rightNormal : right.Normal) :
    (left.ranges.merge right.ranges CodeRange.le).Pairwise fun left right =>
      left.first ≤ right.first := by
  have ascends : ∀ {ranges}, Apart ranges →
      ranges.Pairwise fun left right => left.le right = true := by
    intro ranges apart
    refine List.Pairwise.imp_of_mem ?_ apart.gaps
    intro first second firstMember _ gap
    have nonempty := apart.nonempty first firstMember
    rw [CodeRange.le_iff]
    omega
  apply ordered_of_le
  apply List.pairwise_merge CodeRange.le_trans CodeRange.le_total
  · exact ascends leftNormal
  · exact ascends rightNormal

theorem contains_union
    (leftNormal : left.Normal)
    (rightNormal : right.Normal) :
    (left.union right).contains point =
      (left.contains point || right.contains point) := by
  rw [Bool.eq_iff_iff, Bool.or_eq_true, contains_iff, contains_iff,
    contains_iff, union, covers_coalesce (ordered_merge leftNormal rightNormal)]
  simp only [Covers, List.mem_merge, or_and_right, exists_or]

theorem normal_union
    (leftNormal : left.Normal)
    (rightNormal : right.Normal) :
    (left.union right).Normal := by
  refine apart_coalesce (ordered_merge leftNormal rightNormal) ?_
  intro range member
  rcases List.mem_merge.mp member with inLeft | inRight
  · exact leftNormal.nonempty range inLeft
  · exact rightNormal.nonempty range inRight

end Union

/-! ## Intersection -/

/-- The first common range is that of the first ranges, if they meet. -/
theorem covers_commonRanges_cons
    (left right : CodeRange)
    (lefts rights : List CodeRange) :
    Covers (commonRanges (left :: lefts) (right :: rights)) point ↔
      (left.first ≤ point ∧ point ≤ left.last ∧ right.first ≤ point ∧
          point ≤ right.last) ∨
        Covers (if left.last < right.last then
          commonRanges lefts (right :: rights)
        else
          commonRanges (left :: lefts) rights) point := by
  rw [commonRanges]
  split
  · rw [covers_mk_cons]
    refine or_congr_left ?_
    omega
  · refine ⟨.inr, fun covers => covers.resolve_left ?_⟩
    omega

/-- Common ranges cover what both lists cover. -/
theorem covers_commonRanges
    (leftApart : Apart lefts)
    (rightApart : Apart rights) :
    Covers (commonRanges lefts rights) point ↔
      Covers lefts point ∧ Covers rights point := by
  induction lefts generalizing rights with
  | nil => simp [commonRanges]
  | cons left lefts dropLeft =>
      induction rights with
      | nil => simp [commonRanges]
      | cons right rights dropRight =>
          have beyondLeft : Covers lefts point → left.last + 1 < point :=
            leftApart.beyond
          have beyondRight : Covers rights point → right.last + 1 < point :=
            rightApart.beyond
          rw [covers_commonRanges_cons]
          split
          · next endsFirst =>
              rw [dropLeft leftApart.tail rightApart, covers_cons, covers_cons]
              constructor
              · rintro (⟨above, below, inRight⟩ | ⟨inLefts, inRights⟩)
                · exact ⟨.inl ⟨above, below⟩, .inl inRight⟩
                · exact ⟨.inr inLefts, inRights⟩
              · rintro ⟨⟨above, below⟩ | inLefts, inRights⟩
                · refine .inl ⟨above, below, inRights.resolve_right ?_⟩
                  intro later
                  have after := beyondRight later
                  omega
                · exact .inr ⟨inLefts, inRights⟩
          · next endsFirst =>
              rw [dropRight rightApart.tail, covers_cons, covers_cons]
              constructor
              · rintro (⟨above, below, inRight⟩ | ⟨inLefts, inRights⟩)
                · exact ⟨.inl ⟨above, below⟩, .inl inRight⟩
                · exact ⟨inLefts, .inr inRights⟩
              · rintro ⟨inLefts, inRight | inRights⟩
                · refine .inl ?_
                  have inLeft := inLefts.resolve_right fun later => by
                    have after := beyondLeft later
                    omega
                  exact ⟨inLeft.1, inLeft.2, inRight⟩
                · exact .inr ⟨inLefts, inRights⟩

theorem apart_commonRanges
    (leftApart : Apart lefts)
    (rightApart : Apart rights) :
    Apart (commonRanges lefts rights) := by
  induction lefts generalizing rights with
  | nil =>
      rw [commonRanges]
      exact .nil
  | cons left lefts dropLeft =>
      induction rights with
      | nil =>
          rw [commonRanges]
          · exact .nil
          · simp
      | cons right rights dropRight =>
          -- What comes later is covered by the list that was shortened.
          have later : ∀ rest, Apart rest →
              (∀ point, Covers rest point → left.last + 1 < point ∨
                right.last + 1 < point) →
              Apart (if max left.first right.first ≤ min left.last right.last
                then ⟨max left.first right.first,
                  min left.last right.last⟩ :: rest
                else rest) := by
            intro rest apart beyond
            split
            · next nonempty =>
                refine apart.cons nonempty fun range member => ?_
                have after := beyond _ (apart.first_covers member)
                dsimp only
                omega
            · exact apart
          rw [commonRanges]
          refine later _ ?_ fun point covers => ?_
          · split
            · exact dropLeft leftApart.tail rightApart
            · exact dropRight rightApart.tail
          · split at covers
            · rw [covers_commonRanges leftApart.tail rightApart] at covers
              exact .inl (leftApart.beyond covers.1)
            · rw [covers_commonRanges leftApart rightApart.tail] at covers
              exact .inr (rightApart.beyond covers.2)

section Intersection

variable {left right : RangeList}

theorem contains_intersect
    (leftNormal : left.Normal)
    (rightNormal : right.Normal) :
    (left.intersect right).contains point =
      (left.contains point && right.contains point) := by
  rw [Bool.eq_iff_iff, Bool.and_eq_true, contains_iff, contains_iff,
    contains_iff]
  exact covers_commonRanges leftNormal rightNormal

theorem normal_intersect
    (leftNormal : left.Normal)
    (rightNormal : right.Normal) :
    (left.intersect right).Normal :=
  apart_commonRanges leftNormal rightNormal

theorem contains_clamp
    (normal : left.Normal)
    {first last : Nat}
    (ordered : first ≤ last) :
    (left.clamp first last).contains point = true ↔
      left.contains point = true ∧ first ≤ point ∧ point ≤ last := by
  rw [clamp, contains_intersect normal (.singleton ordered), Bool.and_eq_true]
  refine and_congr_right fun _ => ?_
  rw [contains_iff, covers_cons]
  simp

theorem normal_clamp
    (normal : left.Normal)
    {first last : Nat}
    (ordered : first ≤ last) :
    (left.clamp first last).Normal :=
  normal_intersect normal (.singleton ordered)

end Intersection

/-! ## Difference -/

/-- What is left after the range of the first cut. -/
theorem covers_afterCut
    {kept cut : CodeRange}
    {cuts afterKept afterCut : List CodeRange}
    (keptApart : Apart (kept :: rest))
    (cutApart : Apart (cut :: cuts))
    (keptDone : Covers afterKept point ↔
      Covers rest point ∧ ¬ Covers (cut :: cuts) point)
    (cutDone : kept.last > cut.last → (Covers afterCut point ↔
      Covers (⟨cut.last + 1, kept.last⟩ :: rest) point ∧
        ¬ Covers cuts point)) :
    Covers (if kept.last ≤ cut.last then afterKept else afterCut) point ↔
      (cut.last < point ∧ point ≤ kept.last ∨ Covers rest point) ∧
        ¬ Covers (cut :: cuts) point := by
  have beyond : Covers rest point → kept.last + 1 < point := keptApart.beyond
  have nonempty := cutApart.head
  split
  · next ends =>
      rw [keptDone]
      refine and_congr_left fun _ => ⟨.inr, fun covers => covers.resolve_left ?_⟩
      omega
  · next goesOn =>
      rw [cutDone (by omega), covers_mk_cons, covers_cons, not_or]
      constructor
      · rintro ⟨inside, noCuts⟩
        refine ⟨inside.imp_left fun between => ⟨by omega, between.2⟩,
          fun inCut => ?_, noCuts⟩
        rcases inside with between | later
        · exact absurd inCut.2 (by omega)
        · have after := beyond later
          omega
      · rintro ⟨inside, -, noCuts⟩
        exact ⟨inside.imp_left fun between => ⟨by omega, between.2⟩, noCuts⟩

/-- The rest of a range that was cut is apart from what follows it. -/
theorem Apart.afterCut
    {kept cut : CodeRange}
    (keptApart : Apart (kept :: rest))
    (goesOn : kept.last > cut.last) :
    Apart (⟨cut.last + 1, kept.last⟩ :: rest) :=
  keptApart.tail.cons goesOn (List.pairwise_cons.mp keptApart.gaps).1

/-- What is left covers what the first list covers and the second does not. -/
theorem covers_remainingRanges
    (keptApart : Apart lefts)
    (cutApart : Apart rights) :
    Covers (remainingRanges lefts rights) point ↔
      Covers lefts point ∧ ¬ Covers rights point := by
  fun_induction remainingRanges lefts rights with
  | case1 => simp
  | case2 => simp
  | case3 kept rest cut cuts before inductionHypothesis =>
      have beyond : Covers rest point → kept.last + 1 < point :=
        keptApart.beyond
      have nonempty := keptApart.head
      rw [inductionHypothesis keptApart cutApart.tail, covers_cons, covers_cons]
      refine and_congr_right fun inside => ?_
      rw [not_or]
      refine ⟨fun noCuts => ⟨fun inCut => ?_, noCuts⟩, And.right⟩
      rcases inside with inKept | later
      · omega
      · have after := beyond later
        omega
  | case4 kept rest cut cuts notBefore after inductionHypothesis =>
      have inKeptOrRest : Covers (kept :: rest) point ↔ _ := covers_cons
      rw [covers_cons, inductionHypothesis keptApart.tail cutApart,
        inKeptOrRest, or_and_right]
      refine or_congr_left (iff_self_and.mpr fun inKept => ?_)
      exact cutApart.not_covers_before (by omega)
  | case5 kept rest cut cuts notBefore notAfter tail keeps afterKept afterCut =>
      have isTail : Covers tail point ↔ _ := covers_afterCut keptApart cutApart
        (afterKept keptApart.tail cutApart)
        fun goesOn => afterCut (keptApart.afterCut goesOn) cutApart.tail
      have inKeptOrRest : Covers (kept :: rest) point ↔ _ := covers_cons
      rw [covers_mk_cons, isTail, inKeptOrRest]
      constructor
      · rintro (early | ⟨inside, uncut⟩)
        · exact ⟨.inl (by omega), cutApart.not_covers_before (by omega)⟩
        · exact ⟨inside.imp_left fun between => ⟨by omega, between.2⟩, uncut⟩
      · rintro ⟨inKept | later, uncut⟩
        · by_cases early : point < cut.first
          · exact .inl (by omega)
          · refine .inr ⟨.inl ⟨?_, inKept.2⟩, uncut⟩
            rw [covers_cons, not_or] at uncut
            omega
        · exact .inr ⟨.inr later, uncut⟩
  | case6 kept rest cut cuts notBefore notAfter tail keeps afterKept afterCut =>
      have isTail : Covers tail point ↔ _ := covers_afterCut keptApart cutApart
        (afterKept keptApart.tail cutApart)
        fun goesOn => afterCut (keptApart.afterCut goesOn) cutApart.tail
      have inKeptOrRest : Covers (kept :: rest) point ↔ _ := covers_cons
      rw [isTail, inKeptOrRest]
      refine and_congr_left fun uncut => or_congr_left ?_
      rw [covers_cons, not_or] at uncut
      omega

/-- The rest after a cut is apart, whichever range goes on. -/
theorem apart_afterCut
    {kept cut : CodeRange}
    {afterKept afterCut : List CodeRange}
    (keptApart : Apart (kept :: rest))
    (keptDone : Apart afterKept)
    (cutDone : Apart (⟨cut.last + 1, kept.last⟩ :: rest) → Apart afterCut) :
    Apart (if kept.last ≤ cut.last then afterKept else afterCut) := by
  split
  · exact keptDone
  · next goesOn => exact cutDone (keptApart.afterCut (by omega))

theorem apart_remainingRanges
    (keptApart : Apart lefts)
    (cutApart : Apart rights) :
    Apart (remainingRanges lefts rights) := by
  fun_induction remainingRanges lefts rights with
  | case1 => exact .nil
  | case2 => exact keptApart
  | case3 kept rest cut cuts before inductionHypothesis =>
      exact inductionHypothesis keptApart cutApart.tail
  | case4 kept rest cut cuts notBefore after inductionHypothesis =>
      have apart := inductionHypothesis keptApart.tail cutApart
      refine apart.cons keptApart.head fun range member => ?_
      have covers := apart.first_covers member
      rw [covers_remainingRanges keptApart.tail cutApart] at covers
      exact keptApart.beyond covers.1
  | case5 kept rest cut cuts notBefore notAfter tail keeps afterKept afterCut =>
      have apart : Apart tail := apart_afterCut keptApart
        (afterKept keptApart.tail cutApart)
        fun cutRest => afterCut cutRest cutApart.tail
      have nonempty := cutApart.head
      refine apart.cons (by simp only; omega) fun range member => ?_
      have covers : Covers tail range.first := apart.first_covers member
      have isTail : Covers tail range.first ↔ _ :=
        covers_afterCut keptApart cutApart
          (covers_remainingRanges keptApart.tail cutApart)
          fun goesOn => covers_remainingRanges (keptApart.afterCut goesOn)
            cutApart.tail
      rcases (isTail.mp covers).1 with between | later
      · simp only
        omega
      · have after := keptApart.beyond later
        simp only
        omega
  | case6 kept rest cut cuts notBefore notAfter tail keeps afterKept afterCut =>
      exact apart_afterCut keptApart (afterKept keptApart.tail cutApart)
        fun cutRest => afterCut cutRest cutApart.tail

section Difference

variable {left right : RangeList}

theorem contains_subtract
    (leftNormal : left.Normal)
    (rightNormal : right.Normal) :
    (left.subtract right).contains point =
      (left.contains point && !right.contains point) := by
  rw [Bool.eq_iff_iff, Bool.and_eq_true, Bool.not_eq_true', ← Bool.not_eq_true,
    contains_iff, contains_iff, contains_iff]
  exact covers_remainingRanges leftNormal rightNormal

theorem normal_subtract
    (leftNormal : left.Normal)
    (rightNormal : right.Normal) :
    (left.subtract right).Normal :=
  apart_remainingRanges leftNormal rightNormal

end Difference

end RangeList
end ParserGenerator
