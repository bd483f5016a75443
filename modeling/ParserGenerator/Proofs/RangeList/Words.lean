import ParserGenerator.Proofs.CharSet.Algebra

/-!
# Range lists on words

The operations on range lists as loops over words of 32 bits. A step that would
leave the words, or that would make an empty range, has no result. On range
lists in normal form no such step is ever taken, and the loops compute what the
operations on unbounded numbers compute.
-/

namespace ParserGenerator
namespace RangeList

variable {point : Nat} {ranges lefts rights rest cuts : List CodeRange}
  {left right range cut : CodeRange}

/-! ## Range lists are known by their members -/

namespace Apart

theorem covers_tail_iff (apart : Apart (range :: rest)) :
    Covers rest point ↔ Covers (range :: rest) point ∧ range.last < point := by
  rw [covers_cons]
  constructor
  · intro covers
    exact ⟨.inr covers, Nat.lt_of_succ_lt (apart.beyond covers)⟩
  · rintro ⟨inside | covers, beyond⟩
    · exact absurd inside.2 (Nat.not_le_of_lt beyond)
    · exact covers

/-- Nothing is covered before the first range. -/
theorem first_le
    (apart : Apart (range :: rest))
    (covers : Covers (range :: rest) point) :
    range.first ≤ point :=
  Nat.le_of_not_lt fun before => apart.not_covers_before before covers

/-- A first range does not end before the one that starts with it in a list
that covers less. -/
theorem last_le
    (apart : Apart (left :: lefts))
    (starts : right.first ≤ left.last + 1)
    (covers : ∀ point, Covers (right :: rights) point →
      Covers (left :: lefts) point) :
    right.last ≤ left.last := by
  refine Nat.le_of_not_lt fun longer => ?_
  have next := covers (left.last + 1) (covers_cons.mpr (.inl ⟨starts, longer⟩))
  rcases covers_cons.mp next with inside | later
  · exact Nat.not_succ_le_self _ inside.2
  · exact Nat.lt_irrefl _ (apart.beyond later)

/-- Lists of ranges that are apart are equal if they cover the same points. -/
theorem eq_of_covers_iff
    (leftApart : Apart lefts)
    (rightApart : Apart rights)
    (same : ∀ point, Covers lefts point ↔ Covers rights point) :
    lefts = rights := by
  induction lefts generalizing rights with
  | nil =>
      cases rights with
      | nil => rfl
      | cons right rights =>
          have covered := rightApart.first_covers List.mem_cons_self
          exact absurd ((same _).mpr covered) not_covers_nil
  | cons left lefts inductionHypothesis =>
      cases rights with
      | nil =>
          have covered := leftApart.first_covers List.mem_cons_self
          exact absurd ((same _).mp covered) not_covers_nil
      | cons right rights =>
          have leftStart := leftApart.first_covers List.mem_cons_self
          have rightStart := rightApart.first_covers List.mem_cons_self
          have sameFirst : left.first = right.first := Nat.le_antisymm
            (leftApart.first_le ((same _).mpr rightStart))
            (rightApart.first_le ((same _).mp leftStart))
          have leftNonempty := leftApart.head
          have rightNonempty := rightApart.head
          have sameLast : left.last = right.last := Nat.le_antisymm
            (rightApart.last_le (by omega) fun point => (same point).mp)
            (leftApart.last_le (by omega) fun point => (same point).mpr)
          obtain ⟨first, last⟩ := left
          obtain ⟨rightFirst, rightLast⟩ := right
          obtain rfl : first = rightFirst := sameFirst
          obtain rfl : last = rightLast := sameLast
          rw [inductionHypothesis leftApart.tail rightApart.tail
            fun point => ?_]
          rw [leftApart.covers_tail_iff, rightApart.covers_tail_iff, same]

/-- Lists that are apart and divided by a gap are apart together. -/
theorem append
    (leftApart : Apart lefts)
    (bound : Nat)
    (rightApart : Apart rights)
    (before : ∀ range ∈ lefts, range.last < bound)
    (after : ∀ range ∈ rights, bound < range.first) :
    Apart (lefts ++ rights) where
  nonempty range member := by
    rcases List.mem_append.mp member with inLeft | inRight
    · exact leftApart.nonempty range inLeft
    · exact rightApart.nonempty range inRight
  gaps := by
    refine List.pairwise_append.mpr ⟨leftApart.gaps, rightApart.gaps, ?_⟩
    intro left inLeft right inRight
    exact Nat.lt_of_le_of_lt (before left inLeft) (after right inRight)

theorem dropWhile
    (apart : Apart cuts)
    (passed : CodeRange → Bool) :
    Apart (cuts.dropWhile passed) where
  nonempty range member :=
    apart.nonempty range ((List.dropWhile_sublist passed).mem member)
  gaps := apart.gaps.sublist (List.dropWhile_sublist passed)

/-- The cuts that do not end before a point. -/
theorem reached
    (apart : Apart cuts)
    {start : Nat} :
    ∀ cut ∈ cuts.dropWhile (fun cut => cut.last < start), start ≤ cut.last := by
  induction cuts with
  | nil => simp
  | cons cut cuts inductionHypothesis =>
      rw [List.dropWhile_cons]
      split
      · exact inductionHypothesis apart.tail
      · next notBefore =>
          intro other member
          have reached : start ≤ cut.last := by simpa using notBefore
          rcases List.mem_cons.mp member with rfl | later
          · exact reached
          · have gap := (List.pairwise_cons.mp apart.gaps).1 other later
            have nonempty := apart.tail.nonempty other later
            omega

end Apart

@[simp] theorem covers_append :
    Covers (lefts ++ rights) point ↔
      Covers lefts point ∨ Covers rights point := by
  simp only [Covers, List.mem_append, or_and_right, exists_or]

/-- Cuts that end before a stretch do not matter to it. -/
theorem covers_dropWhile
    {start : Nat}
    (above : start ≤ point) :
    Covers (cuts.dropWhile fun cut => cut.last < start) point ↔
      Covers cuts point := by
  induction cuts with
  | nil => rfl
  | cons cut cuts inductionHypothesis =>
      rw [List.dropWhile_cons]
      split
      · next before =>
          have isBefore : cut.last < start := by simpa using before
          rw [inductionHypothesis, covers_cons]
          refine ⟨.inr, fun covers => covers.resolve_left ?_⟩
          omega
      · rfl

/-- Sets in normal form are equal if they have the same members. -/
theorem Normal.eq_of_contains_iff
    {set other : RangeList}
    (normal : set.Normal)
    (otherNormal : other.Normal)
    (same : ∀ point, set.contains point = true ↔ other.contains point = true) :
    set = other := by
  obtain ⟨ranges⟩ := set
  obtain ⟨others⟩ := other
  refine congrArg RangeList.mk
    (Apart.eq_of_covers_iff normal otherNormal fun point => ?_)
  simpa only [contains_iff] using same point

/-! ## Steps on words -/

/-- The greatest word of 32 bits. -/
def greatestWord : Nat := 0xFFFFFFFF

/-- All ranges end within the words. -/
def InWords (set : RangeList) : Prop :=
  ∀ range ∈ set.ranges, range.last ≤ greatestWord

namespace Words

/-- The next word; the greatest one has none. -/
def succ? (word : Nat) : Option Nat :=
  if word < greatestWord then some (word + 1) else none

/-- The word before; zero has none. -/
def pred? : Nat → Option Nat
  | 0 => none
  | word + 1 => some word

/-- A range, which must not be empty. -/
def range? (first last : Nat) : Option CodeRange :=
  if first ≤ last then some ⟨first, last⟩ else none

theorem succ?_eq {word : Nat} (inside : word < greatestWord) :
    succ? word = some (word + 1) :=
  if_pos inside

theorem pred?_eq {word : Nat} (positive : 0 < word) :
    pred? word = some (word - 1) := by
  cases word with
  | zero => contradiction
  | succ word => rfl

theorem range?_eq {first last : Nat} (nonempty : first ≤ last) :
    range? first last = some ⟨first, last⟩ :=
  if_pos nonempty

/-! ## Merging -/

/-- Extend `current` by every following range that overlaps or touches it,
where nothing touches the greatest word from beyond. -/
def absorb (current : CodeRange) : List CodeRange → List CodeRange
  | [] => [current]
  | next :: rest =>
      if next.first ≤ min (current.last + 1) greatestWord then
        absorb ⟨current.first, max current.last next.last⟩ rest
      else
        current :: absorb next rest

/-- Merge the overlapping and touching ranges of an ascending list. -/
def coalesce : List CodeRange → List CodeRange
  | [] => []
  | range :: rest => absorb range rest

/-- The set covered by arbitrary ranges. -/
def ofRanges (ranges : List CodeRange) : RangeList :=
  ⟨coalesce (ranges.mergeSort CodeRange.le)⟩

/-- Members of either set. -/
def union (left right : RangeList) : RangeList :=
  ofRanges (left.ranges ++ right.ranges)

theorem absorb_eq
    {current : CodeRange}
    (inWords : ∀ range ∈ rest, range.first ≤ greatestWord) :
    absorb current rest = RangeList.absorb current rest := by
  induction rest generalizing current with
  | nil => rfl
  | cons next rest inductionHypothesis =>
      have nextInWords := inWords next List.mem_cons_self
      have laterInWords : ∀ range ∈ rest, range.first ≤ greatestWord :=
        fun range member => inWords range (List.mem_cons_of_mem next member)
      have touches : next.first ≤ min (current.last + 1) greatestWord ↔
          next.first ≤ current.last + 1 := by omega
      simp only [absorb, RangeList.absorb, touches,
        inductionHypothesis laterInWords]

theorem ofRanges_eq
    (inWords : ∀ range ∈ ranges, range.first ≤ greatestWord) :
    ofRanges ranges = RangeList.ofRanges ranges := by
  refine congrArg RangeList.mk ?_
  have sortedInWords : ∀ range ∈ ranges.mergeSort CodeRange.le,
      range.first ≤ greatestWord :=
    fun range member => inWords range (List.mem_mergeSort.mp member)
  cases isSorted : ranges.mergeSort CodeRange.le with
  | nil => rfl
  | cons range rest =>
      rw [isSorted] at sortedInWords
      exact absorb_eq fun other member =>
        sortedInWords other (List.mem_cons_of_mem range member)

theorem first_le_of_inWords
    {set : RangeList}
    (normal : set.Normal)
    (inWords : set.InWords)
    (member : range ∈ set.ranges) :
    range.first ≤ greatestWord :=
  Nat.le_trans (normal.nonempty range member) (inWords range member)

theorem union_eq
    {left right : RangeList}
    (leftNormal : left.Normal)
    (rightNormal : right.Normal)
    (leftInWords : left.InWords)
    (rightInWords : right.InWords) :
    union left right = left.union right := by
  have nonempty : ∀ range ∈ left.ranges ++ right.ranges,
      range.first ≤ range.last := by
    intro range member
    rcases List.mem_append.mp member with inLeft | inRight
    · exact leftNormal.nonempty range inLeft
    · exact rightNormal.nonempty range inRight
  rw [union, ofRanges_eq]
  · refine Normal.eq_of_contains_iff (normal_ofRanges nonempty)
      (normal_union leftNormal rightNormal) fun point => ?_
    rw [contains_union leftNormal rightNormal, Bool.or_eq_true,
      contains_ofRanges, contains_iff, contains_iff]
    simp only [Covers, List.mem_append, or_and_right, exists_or]
  · intro range member
    rcases List.mem_append.mp member with inLeft | inRight
    · exact first_le_of_inWords leftNormal leftInWords inLeft
    · exact first_le_of_inWords rightNormal rightInWords inRight

/-! ## Intersection -/

/-- Common parts of two ascending lists, dropping the range that ends first. -/
def common? :
    List CodeRange → List CodeRange → Option (List CodeRange)
  | [], _ => some []
  | _, [] => some []
  | left :: lefts, right :: rights => do
      let first := max left.first right.first
      let last := min left.last right.last
      let here ←
        if first ≤ last then (range? first last).map ([·]) else some []
      let later ←
        if left.last < right.last then
          common? lefts (right :: rights)
        else
          common? (left :: lefts) rights
      return here ++ later
  termination_by lefts rights => lefts.length + rights.length

/-- Members of both sets. -/
def intersect? (left right : RangeList) : Option RangeList :=
  (common? left.ranges right.ranges).map RangeList.mk

/-- A common part is made only where two ranges meet. -/
theorem common?_eq (lefts rights : List CodeRange) :
    common? lefts rights = some (commonRanges lefts rights) := by
  induction lefts generalizing rights with
  | nil => rw [common?, commonRanges]
  | cons left lefts dropLeft =>
      induction rights with
      | nil =>
          rw [common?, commonRanges]
          · simp
          · simp
      | cons right rights dropRight =>
          rw [common?, commonRanges]
          simp only [dropLeft, dropRight]
          split
          · next meet =>
              simp only [range?_eq meet]
              split <;> rfl
          · split <;> rfl

theorem intersect?_eq (left right : RangeList) :
    intersect? left right = some (left.intersect right) := by
  rw [intersect?, common?_eq, Option.map_some, intersect]

/-! ## Difference -/

/-- The part of a stretch before a cut. -/
def beforeCut? (start : Nat) (cut : CodeRange) : Option (List CodeRange) :=
  if start < cut.first then do
    let range ← range? start (← pred? cut.first)
    return [range]
  else
    some []

/-- What is left of a stretch when ranges are cut out that do not end before
it. -/
def cut? (start last : Nat) :
    List CodeRange → Option (List CodeRange)
  | [] => (range? start last).map ([·])
  | cut :: cuts =>
      if cut.first ≤ last then do
        let before ← beforeCut? start cut
        if last ≤ cut.last then
          return before
        else
          let later ← cut? (max start (← succ? cut.last)) last cuts
          return before ++ later
      else
        (range? start last).map ([·])

/-- What is left of ranges; the cuts that end before a range are passed over
for all later ranges. -/
def remaining? :
    List CodeRange → List CodeRange → Option (List CodeRange)
  | [], _ => some []
  | range :: rest, cuts => do
      let cuts := cuts.dropWhile fun cut => cut.last < range.first
      let here ← cut? range.first range.last cuts
      let later ← remaining? rest cuts
      return here ++ later

/-- Members of the first set that are not in the second. -/
def subtract? (left right : RangeList) : Option RangeList :=
  (remaining? left.ranges right.ranges).map RangeList.mk

/-- Ranges that are the points of a stretch that some cuts leave over. -/
structure Leaves (first last : Nat) (cuts ranges : List CodeRange) : Prop where
  /-- The ranges are apart. -/
  apart : Apart ranges
  /-- They are what is not cut out. -/
  covers_iff : ∀ point, Covers ranges point ↔
    (first ≤ point ∧ point ≤ last) ∧ ¬ Covers cuts point

/-- The ranges that are left lie within the stretch. -/
theorem Leaves.within
    {first last : Nat}
    (leaves : Leaves first last cuts ranges)
    (member : range ∈ ranges) :
    first ≤ range.first ∧ range.last ≤ last := by
  have nonempty := leaves.apart.nonempty range member
  have start := ((leaves.covers_iff range.first).mp
    ⟨range, member, Nat.le_refl _, nonempty⟩).1
  have finish := ((leaves.covers_iff range.last).mp
    ⟨range, member, nonempty, Nat.le_refl _⟩).1
  exact ⟨start.1, finish.2⟩

/-- A stretch that no cut reaches is left whole. -/
theorem Leaves.whole
    {first last : Nat}
    (nonempty : first ≤ last)
    (beyond : ∀ point, Covers cuts point → last < point) :
    Leaves first last cuts [⟨first, last⟩] where
  apart := .singleton nonempty
  covers_iff point := by
    rw [covers_mk_cons]
    simp only [not_covers_nil, or_false]
    refine (and_iff_left_of_imp fun inside covers => ?_).symm
    exact Nat.not_le_of_lt (beyond point covers) inside.2

/-- The part of a stretch before a cut. -/
def beforeCut (start : Nat) (cut : CodeRange) : List CodeRange :=
  if start < cut.first then [⟨start, cut.first - 1⟩] else []

theorem covers_beforeCut {start : Nat} :
    Covers (beforeCut start cut) point ↔ start ≤ point ∧ point < cut.first := by
  unfold beforeCut
  split
  · rw [covers_mk_cons]
    simp only [not_covers_nil, or_false]
    omega
  · simp only [not_covers_nil, false_iff]
    omega

theorem apart_beforeCut (start : Nat) (cut : CodeRange) :
    Apart (beforeCut start cut) := by
  unfold beforeCut
  split
  · exact .singleton (by dsimp only; omega)
  · exact .nil

/-- Nothing is left of the stretch after a cut that reaches its end. -/
theorem leaves_beforeCut
    {start last : Nat}
    (apart : Apart (cut :: cuts))
    (meets : cut.first ≤ last)
    (ends : last ≤ cut.last) :
    Leaves start last (cut :: cuts) (beforeCut start cut) where
  apart := apart_beforeCut start cut
  covers_iff point := by
    rw [covers_beforeCut]
    constructor
    · rintro ⟨above, below⟩
      exact ⟨⟨above, by omega⟩, apart.not_covers_before below⟩
    · rintro ⟨inside, uncut⟩
      rw [covers_cons, not_or] at uncut
      omega

/-- The stretch goes on after a cut that ends before it does. -/
theorem Leaves.afterCut
    {start last : Nat}
    {later : List CodeRange}
    (leaves : Leaves (cut.last + 1) last cuts later)
    (apart : Apart (cut :: cuts))
    (reached : start ≤ cut.last)
    (ends : cut.last < last) :
    Leaves start last (cut :: cuts) (beforeCut start cut ++ later) := by
  have cutNonempty := apart.head
  constructor
  · refine (apart_beforeCut start cut).append cut.first leaves.apart
      (fun range member => ?_) fun range member => ?_
    · have nonempty := (apart_beforeCut start cut).nonempty range member
      exact (covers_beforeCut.mp ⟨range, member, nonempty, Nat.le_refl _⟩).2
    · have within := leaves.within member
      omega
  · intro point
    rw [covers_append, covers_beforeCut, leaves.covers_iff, covers_cons, not_or]
    constructor
    · rintro (⟨above, below⟩ | ⟨inside, uncut⟩)
      · have notBefore := apart.not_covers_before below
        rw [covers_cons, not_or] at notBefore
        exact ⟨⟨above, by omega⟩, notBefore⟩
      · exact ⟨⟨by omega, inside.2⟩, by omega, uncut⟩
    · rintro ⟨inside, notInCut, uncut⟩
      by_cases below : point < cut.first
      · exact .inl ⟨inside.1, below⟩
      · exact .inr ⟨⟨by omega, inside.2⟩, uncut⟩

theorem beforeCut?_eq (start : Nat) (cut : CodeRange) :
    beforeCut? start cut = some (beforeCut start cut) := by
  unfold beforeCut? beforeCut
  split
  · next before =>
      simp [pred?_eq (Nat.zero_lt_of_lt before),
        range?_eq (Nat.le_sub_one_of_lt before)]
  · rfl

/-- No step of cutting leaves the words. -/
theorem exists_leaves
    {start last : Nat}
    (apart : Apart cuts)
    (nonempty : start ≤ last)
    (inWords : last ≤ greatestWord)
    (reached : ∀ cut ∈ cuts, start ≤ cut.last) :
    ∃ ranges, cut? start last cuts = some ranges ∧
      Leaves start last cuts ranges := by
  induction cuts generalizing start with
  | nil =>
      refine ⟨_, by rw [cut?, range?_eq nonempty]; rfl, ?_⟩
      exact .whole nonempty fun _ covers => absurd covers not_covers_nil
  | cons cut cuts inductionHypothesis =>
      have cutReached := reached cut List.mem_cons_self
      rw [cut?, beforeCut?_eq]
      split
      · next meets =>
          by_cases ends : last ≤ cut.last
          · exact ⟨beforeCut start cut, by simp [ends],
              leaves_beforeCut apart meets ends⟩
          · -- The cut ends before the stretch does, so there is a word after
            -- it, and the later cuts begin behind that word.
            have goesOn := Nat.lt_of_not_le ends
            have starts : max start (cut.last + 1) = cut.last + 1 := by omega
            obtain ⟨later, isLater, leaves⟩ :=
              @inductionHypothesis (cut.last + 1) apart.tail goesOn
                fun other member => by
                  have gap := (List.pairwise_cons.mp apart.gaps).1 other member
                  have otherNonempty := apart.tail.nonempty other member
                  omega
            refine ⟨beforeCut start cut ++ later, ?_,
              leaves.afterCut apart cutReached goesOn⟩
            simp [ends, succ?_eq (Nat.lt_of_lt_of_le goesOn inWords), starts,
              isLater]
      · next beyond =>
          refine ⟨_, by rw [range?_eq nonempty]; rfl, ?_⟩
          exact .whole nonempty fun point covers =>
            Nat.lt_of_lt_of_le (Nat.lt_of_not_le beyond) (apart.first_le covers)

/-- What is left of some ranges: the points that no cut covers. -/
theorem exists_remaining
    (keptApart : Apart lefts)
    (cutApart : Apart rights)
    (inWords : ∀ range ∈ lefts, range.last ≤ greatestWord) :
    ∃ ranges, remaining? lefts rights = some ranges ∧ Apart ranges ∧
      ∀ point, Covers ranges point ↔
        Covers lefts point ∧ ¬ Covers rights point := by
  induction lefts generalizing rights with
  | nil => exact ⟨[], by rw [remaining?], .nil, by simp⟩
  | cons range rest inductionHypothesis =>
      obtain ⟨here, isHere, leaves⟩ := exists_leaves
        (cutApart.dropWhile fun cut => cut.last < range.first) keptApart.head
        (inWords range List.mem_cons_self) cutApart.reached
      obtain ⟨later, isLater, laterApart, laterCovers⟩ := inductionHypothesis
        keptApart.tail (cutApart.dropWhile fun cut => cut.last < range.first)
        fun other member => inWords other (List.mem_cons_of_mem range member)
      refine ⟨here ++ later, ?_, ?_, fun point => ?_⟩
      · rw [remaining?]
        simp [isHere, isLater]
      · refine leaves.apart.append (range.last + 1) laterApart
          (fun other member => ?_) fun other member => ?_
        · exact Nat.lt_succ_of_le (leaves.within member).2
        · have covers := laterApart.first_covers member
          exact keptApart.beyond ((laterCovers _).mp covers).1
      · rw [covers_append, leaves.covers_iff, laterCovers, ← or_and_right,
          ← covers_cons]
        refine and_congr_right fun covers => not_congr ?_
        exact covers_dropWhile (keptApart.first_le covers)

theorem subtract?_eq
    {left right : RangeList}
    (leftNormal : left.Normal)
    (rightNormal : right.Normal)
    (inWords : left.InWords) :
    subtract? left right = some (left.subtract right) := by
  obtain ⟨ranges, isRest, apart, covers⟩ :=
    exists_remaining leftNormal rightNormal inWords
  rw [subtract?, isRest, Option.map_some]
  refine congrArg some (Normal.eq_of_contains_iff apart
    (normal_subtract leftNormal rightNormal) fun point => ?_)
  rw [contains_subtract leftNormal rightNormal, contains_iff, covers]
  simp [← Bool.not_eq_true, contains_iff]

theorem negate?_eq
    {set : RangeList}
    (normal : set.Normal) :
    subtract? all set = some set.negate :=
  subtract?_eq normal_all normal (by unfold InWords; decide)

/-! ## Case counterparts -/

/-- The last code point that the scan for case counterparts looks at. -/
def lastCased : Nat := 0x1E943

variable [CharacterData]

/-- The case counterparts of a code point. -/
def counterpartsOf (point : Nat) : List Nat :=
  (CharacterData.counterparts.filter fun pair => pair.1 == point).map Prod.snd

/-- The counterparts of the members of ranges up to the last cased code point,
surrogates left out. -/
def scanCase : List CodeRange → List CodeRange
  | [] => []
  | range :: rest =>
      if lastCased < range.first then
        []
      else
        let points := List.range' range.first
          (min range.last lastCased + 1 - range.first)
        let characters := points.filter fun point => !isSurrogate point
        (characters.flatMap counterpartsOf).map CodeRange.single ++
          scanCase rest

/-- The set with the counterparts of its members. -/
def toAnyCase (set : RangeList) : RangeList :=
  let added := scanCase set.ranges
  if added.isEmpty then set else ofRanges (set.ranges ++ added)

end Words

/-- Case counterparts are characters, and no character beyond the last cased
one has any. -/
def CharacterData.CasedBelow [CharacterData] : Prop :=
  ∀ pair ∈ CharacterData.counterparts,
    pair.1 ≤ Words.lastCased ∧ isSurrogate pair.1 = false ∧
      pair.2 ≤ maxCodePoint

namespace Words

variable [CharacterData]

omit [CharacterData] in
theorem mem_points
    {member first last : Nat} :
    member ∈ List.range' first (last + 1 - first) ↔
      first ≤ member ∧ member ≤ last := by
  rw [List.mem_range'_1]
  omega

theorem mem_counterpartsOf {member target : Nat} :
    target ∈ counterpartsOf member ↔
      (member, target) ∈ CharacterData.counterparts := by
  simp [counterpartsOf]

/-- The scan finds the counterparts of all members. -/
theorem mem_scanCase
    (cased : CharacterData.CasedBelow)
    (apart : Apart ranges) :
    range ∈ scanCase ranges ↔ ∃ member target, Covers ranges member ∧
      (member, target) ∈ CharacterData.counterparts ∧
        CodeRange.single target = range := by
  induction ranges with
  | nil => simp [scanCase]
  | cons first rest inductionHypothesis =>
      rw [scanCase]
      split
      · next beyond =>
          -- Nothing beyond the last cased code point has a counterpart.
          refine iff_of_false List.not_mem_nil ?_
          rintro ⟨member, target, covers, isPair, -⟩
          have below := (cased _ isPair).1
          have above := apart.first_le covers
          dsimp only at below
          omega
      · rw [List.mem_append, inductionHypothesis apart.tail]
        simp only [List.mem_map, List.mem_flatMap, List.mem_filter, mem_points,
          mem_counterpartsOf, covers_cons, Bool.not_eq_true']
        constructor
        · rintro (⟨target, ⟨member, ⟨inside, -⟩, isPair⟩, isSingle⟩ |
            ⟨member, target, covers, found⟩)
          · exact ⟨member, target, .inl ⟨inside.1, by omega⟩, isPair, isSingle⟩
          · exact ⟨member, target, .inr covers, found⟩
        · rintro ⟨member, target, inside | covers, isPair, isSingle⟩
          · obtain ⟨below, notSurrogate, -⟩ := cased _ isPair
            dsimp only at below
            exact .inl ⟨target,
              ⟨member, ⟨⟨inside.1, by omega⟩, notSurrogate⟩, isPair⟩, isSingle⟩
          · exact .inr ⟨member, target, covers, isPair, isSingle⟩

theorem toAnyCase_eq
    (cased : CharacterData.CasedBelow)
    {set : RangeList}
    (normal : set.Normal)
    (inWords : set.InWords) :
    toAnyCase set = set.toAnyCase := by
  have closureNormal := normal_toAnyCase normal
  unfold toAnyCase
  dsimp only
  split
  · next isEmpty =>
      refine Normal.eq_of_contains_iff normal closureNormal fun point => ?_
      rw [contains_toAnyCase normal]
      refine ⟨.inl, fun contains => contains.resolve_right ?_⟩
      rintro ⟨member, inSet, isPair⟩
      have found := (mem_scanCase cased normal).mpr
        ⟨member, point, contains_iff.mp inSet, isPair, rfl⟩
      rw [List.isEmpty_iff.mp isEmpty] at found
      exact List.not_mem_nil found
  · have listed : ∀ range ∈ set.ranges ++ scanCase set.ranges,
        range.first ≤ range.last ∧ range.first ≤ greatestWord := by
      intro range member
      rcases List.mem_append.mp member with inSet | added
      · exact ⟨normal.nonempty range inSet,
          first_le_of_inWords normal inWords inSet⟩
      · obtain ⟨origin, target, -, isPair, rfl⟩ :=
          (mem_scanCase cased normal).mp added
        have known : target ≤ maxCodePoint := (cased _ isPair).2.2
        exact ⟨Nat.le_refl _, Nat.le_trans known (by decide)⟩
    rw [ofRanges_eq fun range member => (listed range member).2]
    refine Normal.eq_of_contains_iff
      (normal_ofRanges fun range member => (listed range member).1)
      closureNormal fun point => ?_
    rw [contains_ofRanges, contains_toAnyCase normal, covers_append,
      ← contains_iff]
    refine or_congr_right ⟨?_, ?_⟩
    · rintro ⟨range, added, inside⟩
      obtain ⟨origin, target, covers, isPair, rfl⟩ :=
        (mem_scanCase cased normal).mp added
      obtain rfl :=
        CodeRange.contains_single.mp (CodeRange.contains_iff.mpr inside)
      exact ⟨origin, contains_iff.mpr covers, isPair⟩
    · rintro ⟨origin, inSet, isPair⟩
      have added := (mem_scanCase cased normal).mpr
        ⟨origin, point, contains_iff.mp inSet, isPair, rfl⟩
      exact ⟨_, added, Nat.le_refl _, Nat.le_refl _⟩

end Words
end RangeList
end ParserGenerator
