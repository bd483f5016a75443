import Mathlib.Data.Set.Card
import Mathlib.Order.Interval.Finset.Nat
import ParserGenerator.Proofs.RangeList.Words
import ParserGenerator.Unicode.Standard

/-!
# Range lists are canonical

All range lists that are made from ranges of words by the operations are in
normal form and have the members that the operations stand for, so that there
is one list for each set. The loops that make them never leave the words.
-/

namespace ParserGenerator
namespace RangeList

/-! ## Counting -/

/-- The ranges of a list that is apart count its points. -/
theorem Apart.count_eq_card
    {ranges : List CodeRange}
    (apart : Apart ranges)
    (known : ∀ point, Covers ranges point → point ≤ maxCodePoint)
    (points : Finset Nat)
    (same : ∀ point, point ∈ points ↔ Covers ranges point) :
    ranges.foldr (fun range total => range.count + total) 0 = points.card := by
  induction ranges generalizing points with
  | nil =>
      have noPoints : points = ∅ :=
        Finset.eq_empty_of_forall_notMem fun point member =>
          not_covers_nil ((same point).mp member)
      simp [noPoints]
  | cons range rest inductionHypothesis =>
      have nonempty := apart.head
      have restSame (point : Nat) :
          point ∈ points.filter (range.last < ·) ↔ Covers rest point := by
        rw [Finset.mem_filter, same, ← apart.covers_tail_iff]
      have here : points.filter (¬ range.last < ·) =
          Finset.Icc range.first range.last := by
        ext point
        rw [Finset.mem_filter, same, Finset.mem_Icc, covers_cons]
        constructor
        · rintro ⟨inside | later, notBeyond⟩
          · exact inside
          · exact absurd (apart.beyond later) (by omega)
        · intro inside
          exact ⟨.inl inside, by omega⟩
      have lastKnown : range.last ≤ maxCodePoint :=
        known range.last (covers_cons.mpr (.inl ⟨nonempty, Nat.le_refl _⟩))
      have counted :
          range.count = (Finset.Icc range.first range.last).card := by
        rw [Nat.card_Icc, CodeRange.count, Nat.mod_eq_of_lt]
        · omega
        · rw [maxCodePoint] at lastKnown
          omega
      rw [List.foldr_cons, counted, ← here,
        inductionHypothesis apart.tail
          (fun point covers => known point (covers_cons.mpr (.inr covers)))
          _ restSame, Nat.add_comm]
      exact Finset.card_filter_add_card_filter_not _

/-- Within the code points, the number of members is that of the points. -/
theorem count_eq_ncard
    {set : RangeList}
    (normal : set.Normal)
    (known : ∀ point, set.contains point = true → point ≤ maxCodePoint) :
    set.count = {point | set.contains point = true}.ncard := by
  have isFinite : {point | set.contains point = true}.Finite :=
    (Set.finite_Iic maxCodePoint).subset known
  rw [Set.ncard_eq_toFinset_card _ isFinite]
  refine Apart.count_eq_card normal
    (fun point covers => known point (contains_iff.mpr covers)) _
    fun point => ?_
  rw [Set.Finite.mem_toFinset, Set.mem_ofPred_eq, contains_iff]

theorem contains_all_iff {point : Nat} :
    all.contains point = true ↔
      point ≤ maxCodePoint ∧ isSurrogate point = false := by
  by_cases known : point ≤ maxCodePoint
  · simp [contains_all known, known]
  · rw [contains_iff]
    simp only [all, covers_cons, not_covers_nil, or_false, maxCodePoint,
      surrogateFirst, surrogateLast] at known ⊢
    omega

/-! ## Constructions -/

/-- How a range list is made. -/
inductive Construction
  | given (ranges : List CodeRange)
  | union (left right : Construction)
  | intersect (left right : Construction)
  | subtract (left right : Construction)
  | negate (set : Construction)
  | clamp (set : Construction) (first last : Nat)
  | anyCase (set : Construction)

namespace Construction

/-- The given ranges and bounds are words in order. -/
def Proper : Construction → Prop
  | given ranges =>
      ∀ range ∈ ranges, range.first ≤ range.last ∧ range.last ≤ greatestWord
  | union left right => left.Proper ∧ right.Proper
  | intersect left right => left.Proper ∧ right.Proper
  | subtract left right => left.Proper ∧ right.Proper
  | negate set => set.Proper
  | clamp set first last => set.Proper ∧ first ≤ last ∧ last ≤ greatestWord
  | anyCase set => set.Proper

variable [CharacterData]

/-- The list that is made. -/
def value : Construction → RangeList
  | given ranges => ofRanges ranges
  | union left right => left.value.union right.value
  | intersect left right => left.value.intersect right.value
  | subtract left right => left.value.subtract right.value
  | negate set => set.value.negate
  | clamp set first last => set.value.clamp first last
  | anyCase set => set.value.toAnyCase

/-- The list that the loops on words make, if all their steps have results. -/
def onWords? : Construction → Option RangeList
  | given ranges => do
      let ranges ← ranges.mapM fun range => Words.range? range.first range.last
      return Words.ofRanges ranges
  | union left right => do
      return Words.union (← left.onWords?) (← right.onWords?)
  | intersect left right => do
      Words.intersect? (← left.onWords?) (← right.onWords?)
  | subtract left right => do
      Words.subtract? (← left.onWords?) (← right.onWords?)
  | negate set => do
      Words.subtract? all (← set.onWords?)
  | clamp set first last => do
      let bounds ← Words.range? first last
      Words.intersect? (← set.onWords?) ⟨[bounds]⟩
  | anyCase set => do
      return Words.toAnyCase (← set.onWords?)

/-- The points that the construction stands for. -/
def Has : Construction → Nat → Prop
  | given ranges, point =>
      ∃ range ∈ ranges, range.first ≤ point ∧ point ≤ range.last
  | union left right, point => left.Has point ∨ right.Has point
  | intersect left right, point => left.Has point ∧ right.Has point
  | subtract left right, point => left.Has point ∧ ¬ right.Has point
  | negate set, point =>
      point ≤ maxCodePoint ∧ isSurrogate point = false ∧ ¬ set.Has point
  | clamp set first last, point =>
      set.Has point ∧ first ≤ point ∧ point ≤ last
  | anyCase set, point =>
      set.Has point ∨ ∃ member, set.Has member ∧
        (member, point) ∈ CharacterData.counterparts

variable {construction : Construction} {point : Nat}

theorem normal_value (proper : construction.Proper) :
    construction.value.Normal := by
  induction construction with
  | given ranges =>
      exact normal_ofRanges fun range member => (proper range member).1
  | union left right leftHypothesis rightHypothesis =>
      exact normal_union (leftHypothesis proper.1) (rightHypothesis proper.2)
  | intersect left right leftHypothesis rightHypothesis =>
      exact normal_intersect (leftHypothesis proper.1)
        (rightHypothesis proper.2)
  | subtract left right leftHypothesis rightHypothesis =>
      exact normal_subtract (leftHypothesis proper.1)
        (rightHypothesis proper.2)
  | negate set inductionHypothesis =>
      exact normal_negate (inductionHypothesis proper)
  | clamp set first last inductionHypothesis =>
      exact normal_clamp (inductionHypothesis proper.1) proper.2.1
  | anyCase set inductionHypothesis =>
      exact normal_toAnyCase (inductionHypothesis proper)

theorem contains_value_iff (proper : construction.Proper) :
    construction.value.contains point = true ↔ construction.Has point := by
  induction construction generalizing point with
  | given ranges => exact contains_ofRanges
  | union left right leftHypothesis rightHypothesis =>
      rw [value, contains_union (normal_value proper.1)
        (normal_value proper.2), Bool.or_eq_true, leftHypothesis proper.1,
        rightHypothesis proper.2, Has]
  | intersect left right leftHypothesis rightHypothesis =>
      rw [value, contains_intersect (normal_value proper.1)
        (normal_value proper.2), Bool.and_eq_true, leftHypothesis proper.1,
        rightHypothesis proper.2, Has]
  | subtract left right leftHypothesis rightHypothesis =>
      rw [value, contains_subtract (normal_value proper.1)
        (normal_value proper.2), Bool.and_eq_true, Bool.not_eq_true',
        ← Bool.not_eq_true, leftHypothesis proper.1, rightHypothesis proper.2,
        Has]
  | negate set inductionHypothesis =>
      have setProper : set.Proper := proper
      rw [value, RangeList.negate, contains_subtract normal_all
        (normal_value setProper), Bool.and_eq_true, Bool.not_eq_true',
        ← Bool.not_eq_true, contains_all_iff, inductionHypothesis setProper,
        Has, and_assoc]
  | clamp set first last inductionHypothesis =>
      rw [value, contains_clamp (normal_value proper.1) proper.2.1,
        inductionHypothesis proper.1, Has]
  | anyCase set inductionHypothesis =>
      have setProper : set.Proper := proper
      simp only [value, contains_toAnyCase (normal_value setProper),
        inductionHypothesis setProper, Has]

/-- Points beyond the words never come in. -/
theorem le_greatestWord_of_has
    (cased : CharacterData.CasedBelow)
    (proper : construction.Proper)
    (has : construction.Has point) :
    point ≤ greatestWord := by
  induction construction generalizing point with
  | given ranges =>
      obtain ⟨range, member, -, below⟩ := has
      exact Nat.le_trans below (proper range member).2
  | union left right leftHypothesis rightHypothesis =>
      rcases has with inLeft | inRight
      · exact leftHypothesis proper.1 inLeft
      · exact rightHypothesis proper.2 inRight
  | intersect left right leftHypothesis _ => exact leftHypothesis proper.1 has.1
  | subtract left right leftHypothesis _ => exact leftHypothesis proper.1 has.1
  | negate set _ => exact Nat.le_trans has.1 (by decide)
  | clamp set first last inductionHypothesis =>
      exact inductionHypothesis proper.1 has.1
  | anyCase set inductionHypothesis =>
      rcases has with inSet | ⟨member, -, isPair⟩
      · exact inductionHypothesis proper inSet
      · exact Nat.le_trans (cased _ isPair).2.2 (by decide)

theorem inWords_value
    (cased : CharacterData.CasedBelow)
    (proper : construction.Proper) :
    construction.value.InWords := by
  intro range member
  have nonempty := (normal_value proper).nonempty range member
  refine le_greatestWord_of_has cased proper ((contains_value_iff proper).mp ?_)
  exact contains_iff.mpr ⟨range, member, nonempty, Nat.le_refl _⟩

omit [CharacterData] in
theorem mapM_range?_eq
    {ranges : List CodeRange}
    (nonempty : ∀ range ∈ ranges, range.first ≤ range.last) :
    (ranges.mapM fun range => Words.range? range.first range.last) =
      some ranges := by
  induction ranges with
  | nil => rfl
  | cons range rest inductionHypothesis =>
      obtain ⟨here, later⟩ := List.forall_mem_cons.mp nonempty
      rw [List.mapM_cons, Words.range?_eq here, inductionHypothesis later]
      rfl

/-- The loops on words come to their ends without leaving the words. -/
theorem onWords?_eq
    (cased : CharacterData.CasedBelow)
    (proper : construction.Proper) :
    construction.onWords? = some construction.value := by
  induction construction with
  | given ranges =>
      rw [onWords?, mapM_range?_eq fun range member => (proper range member).1]
      refine congrArg some (Words.ofRanges_eq fun range member => ?_)
      exact Nat.le_trans (proper range member).1 (proper range member).2
  | union left right leftHypothesis rightHypothesis =>
      rw [onWords?, leftHypothesis proper.1, rightHypothesis proper.2]
      exact congrArg some (Words.union_eq (normal_value proper.1)
        (normal_value proper.2) (inWords_value cased proper.1)
        (inWords_value cased proper.2))
  | intersect left right leftHypothesis rightHypothesis =>
      rw [onWords?, leftHypothesis proper.1, rightHypothesis proper.2]
      exact Words.intersect?_eq _ _
  | subtract left right leftHypothesis rightHypothesis =>
      rw [onWords?, leftHypothesis proper.1, rightHypothesis proper.2]
      exact Words.subtract?_eq (normal_value proper.1) (normal_value proper.2)
        (inWords_value cased proper.1)
  | negate set inductionHypothesis =>
      have setProper : set.Proper := proper
      rw [onWords?, inductionHypothesis setProper]
      exact Words.negate?_eq (normal_value setProper)
  | clamp set first last inductionHypothesis =>
      rw [onWords?, Words.range?_eq proper.2.1, inductionHypothesis proper.1]
      exact Words.intersect?_eq _ _
  | anyCase set inductionHypothesis =>
      have setProper : set.Proper := proper
      rw [onWords?, inductionHypothesis setProper]
      exact congrArg some (Words.toAnyCase_eq cased (normal_value setProper)
        (inWords_value cased setProper))

end Construction

/-- The algebra of range lists is canonical. However a list is made, no step of
the loops on words leaves the words or makes an empty range; the list is in
normal form and has the points that the construction stands for. So two lists
are equal if and only if they have the same words, and a list of code points
counts its members. -/
theorem algebra_canonical
    [CharacterData]
    (cased : CharacterData.CasedBelow)
    (construction : Construction)
    (proper : construction.Proper) :
    construction.onWords? = some construction.value ∧
      construction.value.Normal ∧ construction.value.InWords ∧
      (∀ point, construction.value.contains point = true ↔
        construction.Has point) ∧
      (∀ other : Construction, other.Proper →
        (construction.value = other.value ↔ ∀ point ≤ greatestWord,
          construction.value.contains point = other.value.contains point)) ∧
      ((∀ range ∈ construction.value.ranges, range.last ≤ maxCodePoint) →
        construction.value.count = {point | construction.Has point}.ncard) := by
  have normal := Construction.normal_value proper
  have members (point : Nat) :=
    @Construction.contains_value_iff _ _ point proper
  refine ⟨Construction.onWords?_eq cased proper, normal,
    Construction.inWords_value cased proper, members,
    fun other otherProper => ⟨fun same point _ => by rw [same],
      fun same => ?_⟩, fun known => ?_⟩
  · refine normal.eq_of_contains_iff (Construction.normal_value otherProper)
      fun point => ?_
    by_cases inWords : point ≤ greatestWord
    · rw [same point inWords]
    · have notMade {made : Construction} (madeProper : made.Proper) :
          ¬ made.value.contains point = true := fun contains => inWords
        (Construction.le_greatestWord_of_has cased madeProper
          ((Construction.contains_value_iff madeProper).mp contains))
      exact iff_of_false (notMade proper) (notMade otherProper)
  · have byMembers : {point | construction.Has point} =
        {point | construction.value.contains point = true} :=
      Set.ext fun point => (members point).symm
    rw [byMembers]
    refine count_eq_ncard normal fun point contains => ?_
    obtain ⟨range, member, -, below⟩ := contains_iff.mp contains
    exact Nat.le_trans below (known range member)

/-- The case mappings of Unicode end where the scan for them does. -/
theorem casedBelow_standard :
    @CharacterData.CasedBelow Unicode.standard := by
  unfold CharacterData.CasedBelow
  decide +kernel

/-- The letters `a` to `f` without `c` and `d` in either case, with ranges that
touch at the end of the words. -/
def touchingRanges : Construction :=
  .union (.given [⟨0xFFFFFFF0, 0xFFFFFFFF⟩, ⟨0xFFFFFF00, 0xFFFFFFEF⟩])
    (.anyCase (.subtract (.given [⟨0x61, 0x66⟩]) (.given [⟨0x63, 0x64⟩])))

theorem algebra_canonical_touchingRanges :
    let _ : CharacterData := Unicode.standard
    (CharacterData.CasedBelow ∧ touchingRanges.Proper) ∧
      touchingRanges.onWords? = some touchingRanges.value ∧
      touchingRanges.value.contains 0x45 = true := by
  let _ : CharacterData := Unicode.standard
  have proper : touchingRanges.Proper := by
    simp only [touchingRanges, Construction.Proper]
    decide
  obtain ⟨made, -, -, members, -⟩ :=
    algebra_canonical casedBelow_standard touchingRanges proper
  refine ⟨⟨casedBelow_standard, proper⟩, made, (members 0x45).mpr (.inr ?_)⟩
  refine .inr ⟨0x65, ⟨?_, ?_⟩, by decide +kernel⟩
  · exact ⟨⟨0x61, 0x66⟩, List.mem_singleton_self _, by decide⟩
  · rintro ⟨range, member, inside⟩
    obtain rfl := List.mem_singleton.mp member
    exact absurd inside (by decide)

end RangeList
end ParserGenerator
