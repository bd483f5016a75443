import ParserGenerator.Proofs.Ascending
import ParserGenerator.Proofs.CharSet
import ParserGenerator.Lexical.Subset

/-!
# Transitions by interval and category

Between two neighbouring boundaries the sets of some edges hold the same units
of each category. A state that sends units on by interval and category
therefore sends each unit where the edges that hold it lead. Leaving out what
holds outside the ranges and joining neighbours does not change this.
-/

namespace ParserGenerator
namespace Lexical

/-! ## Intervals between boundaries -/

section Between

variable {bounds : List Nat} {interval : CodeRange}

theorem first_mem_of_mem_intervalsBetween
    (member : interval ∈ intervalsBetween bounds) :
    interval.first ∈ bounds := by
  fun_induction intervalsBetween bounds with
  | case1 first next rest inductionHypothesis =>
      rcases List.mem_cons.mp member with rfl | later
      · exact List.mem_cons_self
      · exact List.mem_cons_of_mem _ (inductionHypothesis later)
  | case2 bounds short => cases member

theorem nonempty_of_mem_intervalsBetween
    (ascends : Ascends bounds)
    (member : interval ∈ intervalsBetween bounds) :
    interval.first ≤ interval.last := by
  fun_induction intervalsBetween bounds with
  | case1 first next rest inductionHypothesis =>
      obtain ⟨least, restAscends⟩ := List.pairwise_cons.mp ascends
      rcases List.mem_cons.mp member with rfl | later
      · exact Nat.le_sub_one_of_lt (least next List.mem_cons_self)
      · exact inductionHypothesis restAscends later
  | case2 bounds short => cases member

/-- No boundary divides an interval. -/
theorem undivided_of_mem_intervalsBetween
    {bound : Nat}
    (ascends : Ascends bounds)
    (member : interval ∈ intervalsBetween bounds)
    (isBound : bound ∈ bounds) :
    bound ≤ interval.first ∨ interval.last < bound := by
  fun_induction intervalsBetween bounds with
  | case1 first next rest inductionHypothesis =>
      obtain ⟨least, restAscends⟩ := List.pairwise_cons.mp ascends
      rcases List.mem_cons.mp isBound with rfl | isLater
      · left
        rcases List.mem_cons.mp member with rfl | later
        · exact Nat.le_refl _
        · exact Nat.le_of_lt
            (least _ (first_mem_of_mem_intervalsBetween later))
      · rcases List.mem_cons.mp member with rfl | later
        · right
          have above : next ≤ bound := by
            rcases List.mem_cons.mp isLater with rfl | isRest
            · exact Nat.le_refl _
            · exact Nat.le_of_lt
                ((List.pairwise_cons.mp restAscends).1 bound isRest)
          have less := least next List.mem_cons_self
          show next - 1 < bound
          omega
        · exact inductionHypothesis restAscends later isLater
  | case2 bounds short => cases member

/-- The intervals follow one another. -/
theorem pairwise_intervalsBetween (ascends : Ascends bounds) :
    (intervalsBetween bounds).Pairwise fun left right =>
      left.last < right.first := by
  fun_induction intervalsBetween bounds with
  | case1 first next rest inductionHypothesis =>
      obtain ⟨least, restAscends⟩ := List.pairwise_cons.mp ascends
      have less := least next List.mem_cons_self
      refine List.pairwise_cons.mpr ⟨fun interval member => ?_,
        inductionHypothesis restAscends⟩
      have above : next ≤ interval.first := by
        rcases List.mem_cons.mp (first_mem_of_mem_intervalsBetween member) with
          same | later
        · exact Nat.le_of_eq same.symm
        · exact Nat.le_of_lt
            ((List.pairwise_cons.mp restAscends).1 _ later)
      show next - 1 < interval.first
      omega
  | case2 bounds short => exact .nil

/-- Every number between two boundaries is in an interval. -/
theorem exists_mem_intervalsBetween
    {lower upper point : Nat}
    (isLower : lower ∈ bounds)
    (isUpper : upper ∈ bounds)
    (above : lower ≤ point)
    (below : point < upper)
    (ascends : Ascends bounds) :
    ∃ interval ∈ intervalsBetween bounds, interval.contains point = true := by
  fun_induction intervalsBetween bounds generalizing lower with
  | case1 first next rest inductionHypothesis =>
      obtain ⟨least, restAscends⟩ := List.pairwise_cons.mp ascends
      have fromFirst : first ≤ point := by
        rcases List.mem_cons.mp isLower with rfl | later
        · exact above
        · have less := least lower later
          omega
      by_cases before : point < next
      · refine ⟨⟨first, next - 1⟩, List.mem_cons_self, ?_⟩
        rw [CodeRange.contains_iff]
        exact ⟨fromFirst, Nat.le_sub_one_of_lt before⟩
      · have upperLater : upper ∈ next :: rest := by
          rcases List.mem_cons.mp isUpper with rfl | later
          · omega
          · exact later
        obtain ⟨interval, member, found⟩ := inductionHypothesis
          List.mem_cons_self upperLater (Nat.not_lt.mp before) restAscends
        exact ⟨interval, List.mem_cons_of_mem _ member, found⟩
  | case2 bounds short =>
      match bounds with
      | [] => cases isLower
      | [only] =>
          obtain rfl := List.mem_singleton.mp isLower
          obtain rfl := List.mem_singleton.mp isUpper
          omega
      | first :: next :: rest => exact absurd rfl (short first next rest)

end Between

/-! ## Membership by category -/

section Held

variable {point unit : Nat}

/-- No end of a range lies between two numbers. -/
theorem contains_eq_of_undivided
    {members : Members}
    (before : point ≤ unit)
    (isUnit : unit < supplementaryFirst)
    (undivided : ∀ bound ∈ boundaries.ends members,
      bound ≤ point ∨ unit < bound) :
    members.ranges.contains point = members.ranges.contains unit := by
  rw [Bool.eq_iff_iff, RangeList.contains_iff, RangeList.contains_iff]
  refine exists_congr fun range => and_congr_right fun member => ?_
  have ends : ∀ bound ∈ [min range.first supplementaryFirst,
      min (range.last + 1) supplementaryFirst], bound ≤ point ∨ unit < bound :=
    fun bound isBound => undivided bound
      (List.mem_flatMap.mpr ⟨range, member, isBound⟩)
  have first := ends _ List.mem_cons_self
  have last := ends _ (List.mem_cons_of_mem _ List.mem_cons_self)
  omega

variable [CharacterData]

/-- A unit is in a set if its category is held by its interval. -/
theorem contains_heldCategories
    {set : CharSet}
    (before : point ≤ unit)
    (isUnit : unit < supplementaryFirst)
    (undivided : ∀ bound ∈ boundaries set, bound ≤ point ∨ unit < bound) :
    (heldCategories (some point) set).contains (Category.of unit) =
      set.contains unit := by
  have listed {members : Members}
      (apart : ∀ bound ∈ boundaries.ends members,
        bound ≤ point ∨ unit < bound) :
      (heldCategories.listed (some point) members).contains
          (Category.of unit) = members.contains unit := by
    rw [heldCategories.listed, Option.any_some,
      contains_eq_of_undivided before isUnit apart, Members.contains]
    cases members.ranges.contains unit <;> simp
  induction set with
  | plain members => exact listed undivided
  | except members excluded inductionHypothesis =>
      rw [heldCategories, Categories.contains_subtract, CharSet.contains,
        listed fun bound isBound =>
          undivided bound (List.mem_append_left _ isBound),
        inductionHypothesis fun bound isBound =>
          undivided bound (List.mem_append_right _ isBound)]

end Held

section Edges

variable [CharacterData] {edges : List (CharSet × Nat)}

/-- The targets of the edges that hold a unit. -/
def unitTargets (edges : List (CharSet × Nat)) (unit : Nat) : List Nat :=
  ascending ((edges.filter fun edge => edge.1.contains unit).map (·.2))

omit [CharacterData] in
theorem mem_targets {point : Option Nat} {category : Category} {target : Nat} :
    target ∈ targets (openEdges edges point) category ↔
      ∃ edge ∈ edges, (heldCategories point edge.1).contains category = true ∧
        edge.2 = target := by
  simp only [targets, openEdges, mem_ascending, List.mem_map, List.mem_filter]
  constructor
  · rintro ⟨_, ⟨⟨⟨edge, member, rfl⟩, -⟩, held⟩, rfl⟩
    exact ⟨edge, member, held, rfl⟩
  · rintro ⟨edge, member, held, rfl⟩
    refine ⟨_, ⟨⟨⟨edge, member, rfl⟩, ?_⟩, held⟩, rfl⟩
    rw [Bool.not_eq_true', Bool.eq_false_iff]
    intro isEmpty
    rw [Categories.isEmpty_iff.mp isEmpty] at held
    cases held

/-- In an interval the targets depend on the category alone. -/
theorem targets_eq_unitTargets
    {interval : CodeRange}
    {unit : Nat}
    (member : interval ∈ intervals edges)
    (inside : interval.contains unit = true)
    (isUnit : unit < supplementaryFirst) :
    targets (openEdges edges (some interval.first)) (Category.of unit) =
      unitTargets edges unit := by
  rw [CodeRange.contains_iff] at inside
  have same : ∀ edge ∈ edges,
      (heldCategories (some interval.first) edge.1).contains
        (Category.of unit) = edge.1.contains unit := by
    intro edge isEdge
    refine contains_heldCategories inside.1 isUnit fun bound isBound => ?_
    have isAny : bound ∈ ascending
        ([0, surrogateFirst, surrogateLast + 1, supplementaryFirst] ++
          edges.flatMap fun edge => boundaries edge.1) := by
      rw [mem_ascending]
      exact List.mem_append_right _
        (List.mem_flatMap.mpr ⟨edge, isEdge, isBound⟩)
    have apart := undivided_of_mem_intervalsBetween (ascends_ascending _)
      member isAny
    omega
  refine Ascends.eq_of_mem_iff (ascends_ascending _) (ascends_ascending _)
    fun target => ?_
  show target ∈ targets _ _ ↔ _
  rw [mem_targets]
  simp only [unitTargets, mem_ascending, List.mem_map, List.mem_filter]
  constructor
  · rintro ⟨edge, isEdge, held, rfl⟩
    exact ⟨edge, ⟨isEdge, (same edge isEdge).symm.trans held⟩, rfl⟩
  · rintro ⟨edge, ⟨isEdge, holds⟩, rfl⟩
    exact ⟨edge, isEdge, (same edge isEdge).trans holds, rfl⟩

end Edges

/-! ## Rows -/

section Rows

variable {row : Row} {target : Option Nat}

/-- The row of a target for each category. -/
def rowOf (target : Category → Option Nat) : Row := unitCategories.map target

theorem mem_unitCategories {category : Category} :
    category ∈ unitCategories ↔ category ≠ .surrogate := by
  simp [unitCategories, category.mem_all]

theorem uniform?_eq_some (isUniform : uniform? row = some target) :
    ∀ other ∈ row, other = target := by
  match row, isUniform with
  | first :: rest, isUniform =>
      rw [uniform?] at isUniform
      split at isUniform
      · next allEqual =>
          obtain rfl := Option.some.inj isUniform
          simpa using allEqual
      · cases isUniform

theorem contains_categoriesWith
    {target : Category → Option Nat}
    {category : Category}
    {number : Nat} :
    (categoriesWith (rowOf target) number).contains category = true ↔
      category ≠ .surrogate ∧ target category = some number := by
  have zipped : unitCategories.zip (rowOf target) =
      unitCategories.map fun category => (category, target category) := by
    rw [rowOf, List.map_prod_left_eq_zip]
  rw [categoriesWith, Categories.contains_ofList, zipped, List.mem_map]
  simp only [List.mem_filter, List.mem_map, beq_iff_eq]
  constructor
  · rintro ⟨_, ⟨⟨other, isOther, rfl⟩, isNumber⟩, rfl⟩
    exact ⟨mem_unitCategories.mp isOther, isNumber⟩
  · rintro ⟨notSurrogate, isNumber⟩
    exact ⟨_, ⟨⟨category, mem_unitCategories.mpr notSurrogate, rfl⟩, isNumber⟩,
      rfl⟩

/-- The dispatch of a row has the targets of the row. -/
theorem target_ofRow
    {target : Category → Option Nat}
    {category : Category}
    (notSurrogate : category ≠ .surrogate) :
    (Dispatch.ofRow (rowOf target)).target category = target category := by
  have inRow : target category ∈ rowOf target :=
    List.mem_map_of_mem (mem_unitCategories.mpr notSurrogate)
  rw [Dispatch.ofRow]
  split
  · next common isUniform =>
      exact (uniform?_eq_some isUniform _ inRow).symm
  · rw [Dispatch.target]
    split
    · next transition found =>
        obtain ⟨number, -, rfl⟩ :=
          List.mem_map.mp (List.mem_of_find?_eq_some found)
        have holds := List.find?_some found
        exact (contains_categoriesWith.mp holds).2.symm
    · next missing =>
        cases isTarget : target category with
        | none => rfl
        | some number =>
            have listed : number ∈
                ascending ((rowOf target).filterMap id) := by
              rw [mem_ascending]
              exact List.mem_filterMap.mpr ⟨_, inRow, isTarget⟩
            have absent := List.find?_eq_none.mp missing _
              (List.mem_map_of_mem listed)
            exact absurd
              (contains_categoriesWith.mpr ⟨notSurrogate, isTarget⟩) absent

/-- Surrogates have the target of the units that no category sends on. -/
theorem target_ofRow_surrogate {target : Category → Option Nat} :
    (Dispatch.ofRow (rowOf target)).target .surrogate =
      (Dispatch.ofRow (rowOf target)).otherwise := by
  rw [Dispatch.ofRow]
  split
  · rfl
  · rw [Dispatch.target]
    split
    · next transition found =>
        obtain ⟨number, -, rfl⟩ :=
          List.mem_map.mp (List.mem_of_find?_eq_some found)
        have holds := List.find?_some found
        exact absurd rfl (contains_categoriesWith.mp holds).1
    · rfl

end Rows

/-! ## Joined transitions -/

section Joined

variable {unit : Nat}

/-- The dispatch of the range that holds a unit. -/
def dispatchIn (transitions : List RangeTransition) (unit : Nat) :
    Option Dispatch :=
  (transitions.find? (·.range.contains unit)).map RangeTransition.dispatch

@[simp] theorem dispatchIn_nil : dispatchIn [] unit = none := rfl

theorem dispatchIn_cons
    (transition : RangeTransition)
    (rest : List RangeTransition) :
    dispatchIn (transition :: rest) unit =
      if transition.range.contains unit then
        some transition.dispatch
      else
        dispatchIn rest unit := by
  rw [dispatchIn, List.find?_cons]
  cases transition.range.contains unit <;> rfl

theorem nonempty_joinRanges
    {transitions : List RangeTransition}
    (nonempty : ∀ transition ∈ transitions,
      transition.range.first ≤ transition.range.last) :
    ∀ transition ∈ joinRanges transitions,
      transition.range.first ≤ transition.range.last := by
  fun_induction joinRanges transitions with
  | case1 => exact nonempty
  | case2 transition rest next others restJoined joins inductionHypothesis =>
      obtain ⟨first, restNonempty⟩ := List.forall_mem_cons.mp nonempty
      have joined := inductionHypothesis restNonempty
      rw [restJoined] at joined
      obtain ⟨second, othersNonempty⟩ := List.forall_mem_cons.mp joined
      refine List.forall_mem_cons.mpr ⟨?_, othersNonempty⟩
      have touches := joins.1
      show transition.range.first ≤ next.range.last
      omega
  | case3 transition rest next others restJoined differs inductionHypothesis =>
      obtain ⟨first, restNonempty⟩ := List.forall_mem_cons.mp nonempty
      have joined := inductionHypothesis restNonempty
      rw [restJoined] at joined
      exact List.forall_mem_cons.mpr ⟨first, joined⟩
  | case4 transition rest noneLeft inductionHypothesis =>
      exact List.forall_mem_singleton.mpr
        (List.forall_mem_cons.mp nonempty).1

/-- Joining neighbours keeps the dispatch of each unit. -/
theorem dispatchIn_joinRanges
    {transitions : List RangeTransition}
    (nonempty : ∀ transition ∈ transitions,
      transition.range.first ≤ transition.range.last) :
    dispatchIn (joinRanges transitions) unit = dispatchIn transitions unit := by
  fun_induction joinRanges transitions with
  | case1 => rfl
  | case2 transition rest next others restJoined joins inductionHypothesis =>
      obtain ⟨first, restNonempty⟩ := List.forall_mem_cons.mp nonempty
      have joined := nonempty_joinRanges restNonempty
      rw [restJoined] at joined
      have second := (List.forall_mem_cons.mp joined).1
      have touches := joins.1
      have merged : (⟨transition.range.first, next.range.last⟩ :
          CodeRange).contains unit = (transition.range.contains unit ||
            next.range.contains unit) := by
        rw [Bool.eq_iff_iff, Bool.or_eq_true, CodeRange.contains_iff,
          CodeRange.contains_iff, CodeRange.contains_iff]
        dsimp only
        omega
      rw [dispatchIn_cons, dispatchIn_cons, ← inductionHypothesis restNonempty,
        restJoined, dispatchIn_cons, merged, joins.2]
      cases transition.range.contains unit <;> rfl
  | case3 transition rest next others restJoined differs inductionHypothesis =>
      have restNonempty := (List.forall_mem_cons.mp nonempty).2
      rw [dispatchIn_cons transition, dispatchIn_cons transition, ← restJoined,
        inductionHypothesis restNonempty]
  | case4 transition rest noneLeft inductionHypothesis =>
      have restNonempty := (List.forall_mem_cons.mp nonempty).2
      rw [dispatchIn_cons, dispatchIn_cons,
        ← inductionHypothesis restNonempty, noneLeft]

/-- The transitions of some cells before they are joined. -/
def cellTransitions (outside : Row) (cells : List (CodeRange × Cell)) :
    List RangeTransition :=
  cells.filterMap fun (range, cell) =>
    (cell.dispatch? outside).map (RangeTransition.mk range)

theorem exists_cell_of_mem
    {outside : Row}
    {cells : List (CodeRange × Cell)}
    {transition : RangeTransition}
    (member : transition ∈ cellTransitions outside cells) :
    ∃ cell, (transition.range, cell) ∈ cells := by
  obtain ⟨⟨range, cell⟩, isCell, found⟩ := List.mem_filterMap.mp member
  obtain ⟨dispatch, -, rfl⟩ := Option.map_eq_some_iff.mp found
  exact ⟨cell, isCell⟩

theorem dispatchIn_cellTransitions_cons
    (outside : Row)
    (entry : CodeRange × Cell)
    (rest : List (CodeRange × Cell)) :
    dispatchIn (cellTransitions outside (entry :: rest)) unit =
      if entry.1.contains unit then
        (entry.2.dispatch? outside).or
          (dispatchIn (cellTransitions outside rest) unit)
      else
        dispatchIn (cellTransitions outside rest) unit := by
  obtain ⟨range, cell⟩ := entry
  cases found : cell.dispatch? outside with
  | none => simp [cellTransitions, found]
  | some dispatch => simp [cellTransitions, found, dispatchIn_cons]

/-- A unit gets the dispatch of the cell of its interval. -/
theorem dispatchIn_cellTransitions
    {outside : Row}
    {cells : List (CodeRange × Cell)}
    {interval : CodeRange}
    {cell : Cell}
    (ordered : cells.Pairwise fun left right => left.1.last < right.1.first)
    (member : (interval, cell) ∈ cells)
    (inside : interval.contains unit = true) :
    dispatchIn (cellTransitions outside cells) unit =
      cell.dispatch? outside := by
  induction cells with
  | nil => cases member
  | cons entry rest inductionHypothesis =>
      obtain ⟨before, restOrdered⟩ := List.pairwise_cons.mp ordered
      rw [dispatchIn_cellTransitions_cons]
      rcases List.mem_cons.mp member with rfl | later
      · -- No later interval holds the unit.
        have missing : dispatchIn (cellTransitions outside rest) unit =
            none := by
          rw [dispatchIn, Option.map_eq_none_iff, List.find?_eq_none]
          intro transition isTransition
          obtain ⟨other, isOther⟩ := exists_cell_of_mem isTransition
          have beyond := before _ isOther
          rw [CodeRange.contains_iff] at inside ⊢
          dsimp only at beyond
          omega
        rw [if_pos inside, missing, Option.or_none]
      · have beyond := before _ later
        have outsideEntry : ¬ entry.1.contains unit = true := by
          rw [CodeRange.contains_iff] at inside ⊢
          dsimp only at beyond
          omega
        rw [if_neg outsideEntry, inductionHypothesis restOrdered later]

theorem dispatchIn_compress
    {outside : Row}
    {cells : List (CodeRange × Cell)}
    {interval : CodeRange}
    {cell : Cell}
    (nonempty : ∀ entry ∈ cells, entry.1.first ≤ entry.1.last)
    (ordered : cells.Pairwise fun left right => left.1.last < right.1.first)
    (member : (interval, cell) ∈ cells)
    (inside : interval.contains unit = true) :
    dispatchIn (compress outside cells) unit = cell.dispatch? outside := by
  refine (dispatchIn_joinRanges fun transition isTransition => ?_).trans
    (dispatchIn_cellTransitions ordered member inside)
  obtain ⟨other, isOther⟩ := exists_cell_of_mem isTransition
  exact nonempty _ isOther

end Joined

/-! ## The state of some edges -/

section States

variable [CharacterData]

/-- The target of the units at a point for a category, where `resolve` gives
the states of sets of nodes. -/
def pointTarget (edges : List (CharSet × Nat)) (resolve : List Nat → Option Nat)
    (point : Option Nat) (category : Category) : Option Nat :=
  resolve (targets (openEdges edges point) category)

/-- The cell of an interval, where `resolve` gives the states of sets of
nodes. -/
def cellOf (edges : List (CharSet × Nat)) (resolve : List Nat → Option Nat)
    (interval : CodeRange) : Cell :=
  if isSurrogate interval.first then
    .surrogate (pointTarget edges resolve (some interval.first) .surrogate)
  else
    .plain (rowOf (pointTarget edges resolve (some interval.first)))

omit [CharacterData] in
theorem exists_interval
    (edges : List (CharSet × Nat))
    {unit : Nat}
    (isUnit : unit < supplementaryFirst) :
    ∃ interval ∈ intervals edges, interval.contains unit = true := by
  apply exists_mem_intervalsBetween _ _ (Nat.zero_le unit) isUnit
    (ascends_ascending _)
  · simp
  · simp

omit [CharacterData] in
/-- Surrogates and other units are not in one interval. -/
theorem isSurrogate_first
    {edges : List (CharSet × Nat)}
    {interval : CodeRange}
    {unit : Nat}
    (member : interval ∈ intervals edges)
    (inside : interval.contains unit = true) :
    isSurrogate interval.first = isSurrogate unit := by
  rw [CodeRange.contains_iff] at inside
  have start := undivided_of_mem_intervalsBetween (ascends_ascending _) member
    (mem_ascending.mpr (show surrogateFirst ∈ _ by simp))
  have stop := undivided_of_mem_intervalsBetween (ascends_ascending _) member
    (mem_ascending.mpr (show surrogateLast + 1 ∈ _ by simp))
  rw [Bool.eq_iff_iff, isSurrogate_iff, isSurrogate_iff]
  omega

/-- A state that is made from some edges sends each unit where the edges that
hold it lead. -/
theorem next_eq_resolve
    {edges : List (CharSet × Nat)}
    {resolve : List Nat → Option Nat}
    {state : State}
    (apart : CharacterData.SurrogatesApart)
    (ranges : state.ranges =
      compress (rowOf (pointTarget edges resolve none))
        ((intervals edges).map fun interval =>
          (interval, cellOf edges resolve interval)))
    (outside : state.outside =
      Dispatch.ofRow (rowOf (pointTarget edges resolve none)))
    (unit : CodeUnit) :
    state.next unit = resolve (unitTargets edges unit.toNat) := by
  have isUnit : unit.toNat < supplementaryFirst := unit.toNat_lt
  have known : unit.toNat ≤ maxCodePoint :=
    Nat.le_trans (Nat.le_of_lt isUnit) (by decide)
  obtain ⟨interval, member, inside⟩ := exists_interval edges isUnit
  have found : dispatchIn state.ranges unit.toNat =
      (cellOf edges resolve interval).dispatch?
        (rowOf (pointTarget edges resolve none)) := by
    rw [ranges]
    refine dispatchIn_compress ?_ ?_ (List.mem_map_of_mem member) inside
    · intro entry isEntry
      obtain ⟨other, isOther, rfl⟩ := List.mem_map.mp isEntry
      exact nonempty_of_mem_intervalsBetween (ascends_ascending _) isOther
    · exact (pairwise_intervalsBetween (ascends_ascending _)).map _
        fun _ _ less => less
  have isDispatch : state.dispatch unit.toNat =
      ((cellOf edges resolve interval).dispatch?
        (rowOf (pointTarget edges resolve none))).getD state.outside := by
    rw [← found, dispatchIn, State.dispatch]
    cases state.ranges.find? (·.range.contains unit.toNat) <;> rfl
  have isTarget : pointTarget edges resolve (some interval.first)
      (Category.of unit.toNat) = resolve (unitTargets edges unit.toNat) := by
    rw [pointTarget, targets_eq_unitTargets member inside isUnit]
  rw [State.next, isDispatch, outside, ← isTarget, cellOf,
    isSurrogate_first member inside]
  have gap := apart unit.toNat known
  split
  · next inGap =>
      rw [gap.mpr inGap, Cell.dispatch?]
      split
      · next same => rw [Option.getD_none, target_ofRow_surrogate, same]
      · rfl
  · next notInGap =>
      have notSurrogate : Category.of unit.toNat ≠ .surrogate :=
        fun isSurrogate => notInGap (gap.mp isSurrogate)
      rw [Cell.dispatch?]
      split
      · next same => rw [Option.getD_none, ← same, target_ofRow notSurrogate]
      · exact target_ofRow notSurrogate

end States

end Lexical
end ParserGenerator
