import Mathlib
import ParserGenerator.Lexical.Automaton
import ParserGenerator.Proofs.Lexical.Numbering

/-!
# The shape of states

The ranges of a state hold units, are not empty and follow one another. The
categories that a state or one of its ranges tells apart exclude each other and
are not those of surrogates, and where some are told apart nothing else leads
on. Whatever a state leads to is a state. A state that branches does nothing
else, and a state has a terminal where it is final and stands for a node that
accepts one.
-/

namespace ParserGenerator
namespace Lexical

/-! ## Targets by category -/

namespace Dispatch

/-- The categories that are told apart are not empty, exclude one another and
the surrogates, and leave nothing for other units. -/
structure Exclusive (dispatch : Dispatch) : Prop where
  /-- Each transition is taken for some category. -/
  nonempty : ∀ transition ∈ dispatch.categories, ∃ category,
    transition.categories.contains category = true
  /-- No category has two transitions. -/
  disjoint : dispatch.categories.Pairwise fun left right => ∀ category,
    ¬(left.categories.contains category = true ∧
      right.categories.contains category = true)
  /-- No transition is taken for surrogates. -/
  noSurrogate : ∀ transition ∈ dispatch.categories,
    transition.categories.contains .surrogate = false
  /-- Where categories are told apart, other units lead nowhere. -/
  otherwise : dispatch.categories ≠ [] → dispatch.otherwise = none

/-- A state is one of the targets. -/
def LeadsTo (dispatch : Dispatch) (target : Nat) : Prop :=
  (∃ transition ∈ dispatch.categories, transition.target = target) ∨
    dispatch.otherwise = some target

theorem not_leadsTo_nowhere {target : Nat} : ¬ nowhere.LeadsTo target := by
  simp [LeadsTo, nowhere]

theorem exclusive_uniform (target : Option Nat) :
    Exclusive ⟨[], target⟩ :=
  ⟨by simp, .nil, by simp, fun nonempty => absurd rfl nonempty⟩

section Rows

variable {target : Category → Option Nat} {number : Nat}

theorem mem_filterMap_rowOf :
    number ∈ ascending ((rowOf target).filterMap id) ↔
      ∃ category, category ≠ .surrogate ∧ target category = some number := by
  rw [mem_ascending, List.mem_filterMap]
  constructor
  · rintro ⟨found, inRow, isNumber⟩
    obtain ⟨category, isUnit, rfl⟩ := List.mem_map.mp inRow
    exact ⟨category, mem_unitCategories.mp isUnit, isNumber⟩
  · rintro ⟨category, other, isNumber⟩
    exact ⟨target category,
      List.mem_map_of_mem (mem_unitCategories.mpr other), isNumber⟩

theorem exclusive_ofRow (target : Category → Option Nat) :
    (ofRow (rowOf target)).Exclusive := by
  rw [ofRow]
  split
  · exact exclusive_uniform _
  · constructor
    · intro transition member
      obtain ⟨number, isNumber, rfl⟩ := List.mem_map.mp member
      obtain ⟨category, other, isTarget⟩ := mem_filterMap_rowOf.mp isNumber
      exact ⟨category, contains_categoriesWith.mpr ⟨other, isTarget⟩⟩
    · refine List.pairwise_map.mpr ((ascends_ascending _).imp ?_)
      rintro left right less category ⟨isLeft, isRight⟩
      have leftTarget := (contains_categoriesWith.mp isLeft).2
      have rightTarget := (contains_categoriesWith.mp isRight).2
      rw [leftTarget] at rightTarget
      exact Nat.ne_of_lt less (Option.some.inj rightTarget)
    · intro transition member
      obtain ⟨number, -, rfl⟩ := List.mem_map.mp member
      rw [Bool.eq_false_iff]
      exact fun isSurrogate => (contains_categoriesWith.mp isSurrogate).1 rfl
    · exact fun _ => rfl

/-- The dispatch of a row leads to the targets of the row. -/
theorem exists_of_leadsTo_ofRow
    (leads : (ofRow (rowOf target)).LeadsTo number) :
    ∃ category, category ≠ .surrogate ∧ target category = some number := by
  rw [ofRow] at leads
  split at leads
  · next common isUniform =>
      rcases leads with ⟨transition, impossible, -⟩ | isCommon
      · cases impossible
      · have inRow : target .uppercaseLetter ∈ rowOf target :=
          List.mem_map_of_mem (mem_unitCategories.mpr (by decide))
        refine ⟨.uppercaseLetter, by decide, ?_⟩
        rw [uniform?_eq_some isUniform _ inRow]
        exact isCommon
  · rcases leads with ⟨transition, member, rfl⟩ | impossible
    · obtain ⟨number, isNumber, rfl⟩ := List.mem_map.mp member
      exact mem_filterMap_rowOf.mp isNumber
    · cases impossible

end Rows
end Dispatch

/-! ## Intervals of units -/

section Units

variable {bounds : List Nat} {edges : List (CharSet × Nat)}
  {interval : CodeRange}

theorem exists_bound_of_mem_intervalsBetween
    (member : interval ∈ intervalsBetween bounds) :
    ∃ next ∈ bounds, interval.last = next - 1 := by
  fun_induction intervalsBetween bounds with
  | case1 first next rest inductionHypothesis =>
      rcases List.mem_cons.mp member with rfl | later
      · exact ⟨next, by simp, rfl⟩
      · obtain ⟨bound, isBound, isLast⟩ := inductionHypothesis later
        exact ⟨bound, List.mem_cons_of_mem _ isBound, isLast⟩
  | case2 bounds short => cases member

theorem le_of_mem_boundaries
    {set : CharSet}
    {bound : Nat}
    (member : bound ∈ boundaries set) :
    bound ≤ supplementaryFirst := by
  have ends {members : Members} (isEnd : bound ∈ boundaries.ends members) :
      bound ≤ supplementaryFirst := by
    obtain ⟨range, -, isEnd⟩ := List.mem_flatMap.mp isEnd
    rcases List.mem_cons.mp isEnd with rfl | isEnd
    · exact Nat.min_le_right _ _
    · rw [List.mem_singleton.mp isEnd]
      exact Nat.min_le_right _ _
  induction set with
  | plain members => exact ends member
  | except members excluded inductionHypothesis =>
      exact (List.mem_append.mp member).elim ends inductionHypothesis

theorem nonempty_of_mem_intervals
    (member : interval ∈ intervals edges) :
    interval.first ≤ interval.last :=
  nonempty_of_mem_intervalsBetween (ascends_ascending _) member

theorem last_lt_of_mem_intervals
    (member : interval ∈ intervals edges) :
    interval.last < supplementaryFirst := by
  obtain ⟨bound, isBound, isLast⟩ :=
    exists_bound_of_mem_intervalsBetween member
  have bounded : bound ≤ supplementaryFirst := by
    rw [mem_ascending, List.mem_append, List.mem_flatMap] at isBound
    rcases isBound with isFixed | ⟨edge, -, isBound⟩
    · have below : ∀ fixed ∈ [0, surrogateFirst, surrogateLast + 1,
          supplementaryFirst], fixed ≤ supplementaryFirst := by
        decide
      exact below bound isFixed
    · exact le_of_mem_boundaries isBound
  rw [isLast]
  exact Nat.lt_of_le_of_lt (Nat.sub_le_sub_right bounded 1) (by decide)

end Units

/-! ## Joined ranges -/

section Joined

variable {transitions : List RangeTransition}

/-- A joined range goes from the start of one range to the end of another,
whose dispatch it has. -/
theorem exists_of_mem_joinRanges :
    ∀ transition ∈ joinRanges transitions,
      ∃ start ∈ transitions, ∃ stop ∈ transitions,
        transition =
          ⟨⟨start.range.first, stop.range.last⟩, stop.dispatch⟩ := by
  fun_induction joinRanges transitions with
  | case1 => exact fun _ impossible => absurd impossible List.not_mem_nil
  | case2 first rest next others restJoined joins inductionHypothesis =>
      rw [restJoined] at inductionHypothesis
      obtain ⟨ofNext, ofOthers⟩ := List.forall_mem_cons.mp inductionHypothesis
      refine List.forall_mem_cons.mpr ⟨?_, fun transition member => ?_⟩
      · obtain ⟨_, -, stop, isStop, isNext⟩ := ofNext
        refine ⟨first, List.mem_cons_self, stop,
          List.mem_cons_of_mem _ isStop, ?_⟩
        rw [isNext]
      · obtain ⟨start, isStart, stop, isStop, same⟩ :=
          ofOthers transition member
        exact ⟨start, List.mem_cons_of_mem _ isStart, stop,
          List.mem_cons_of_mem _ isStop, same⟩
  | case3 first rest next others restJoined differs inductionHypothesis =>
      rw [restJoined] at inductionHypothesis
      refine List.forall_mem_cons.mpr ⟨⟨_, List.mem_cons_self, _,
        List.mem_cons_self, rfl⟩, fun transition member => ?_⟩
      obtain ⟨start, isStart, stop, isStop, same⟩ :=
        inductionHypothesis transition member
      exact ⟨start, List.mem_cons_of_mem _ isStart, stop,
        List.mem_cons_of_mem _ isStop, same⟩
  | case4 first rest noneLeft inductionHypothesis =>
      exact List.forall_mem_singleton.mpr
        ⟨_, List.mem_cons_self, _, List.mem_cons_self, rfl⟩

theorem pairwise_joinRanges
    (ordered : transitions.Pairwise fun left right =>
      left.range.last < right.range.first) :
    (joinRanges transitions).Pairwise fun left right =>
      left.range.last < right.range.first := by
  fun_induction joinRanges transitions with
  | case1 => exact .nil
  | case2 first rest next others restJoined joins inductionHypothesis =>
      have joined := inductionHypothesis (List.pairwise_cons.mp ordered).2
      rw [restJoined, List.pairwise_cons] at joined
      exact List.pairwise_cons.mpr joined
  | case3 first rest next others restJoined differs inductionHypothesis =>
      obtain ⟨before, restOrdered⟩ := List.pairwise_cons.mp ordered
      have joined := inductionHypothesis restOrdered
      rw [restJoined] at joined
      refine List.pairwise_cons.mpr ⟨fun later isLater => ?_, joined⟩
      obtain ⟨start, isStart, _, -, rfl⟩ :=
        exists_of_mem_joinRanges later (restJoined ▸ isLater)
      exact before start isStart
  | case4 first rest noneLeft inductionHypothesis =>
      exact List.pairwise_singleton _ _

end Joined

/-! ## Shapes -/

namespace State

/-- What a state does outside its ranges and in each of them. -/
def dispatches (state : State) : List Dispatch :=
  state.outside :: state.ranges.map RangeTransition.dispatch

/-- The shape of a state among a number of states. -/
structure Shaped (count : Nat) (state : State) : Prop where
  /-- No range is empty. -/
  nonempty : ∀ transition ∈ state.ranges,
    transition.range.first ≤ transition.range.last
  /-- The ranges hold units. -/
  units : ∀ transition ∈ state.ranges, transition.range.last ≤ 0xFFFF
  /-- The ranges ascend and are disjoint. -/
  ordered : state.ranges.Pairwise fun left right =>
    left.range.last < right.range.first
  /-- Categories that are told apart exclude one another. -/
  exclusive : ∀ dispatch ∈ state.dispatches, dispatch.Exclusive
  /-- The targets are states. -/
  targets : ∀ dispatch ∈ state.dispatches, ∀ target,
    dispatch.LeadsTo target → target < count
  /-- A branch is between states, and a state that branches neither reads nor
  is final. -/
  branches : ∀ branch, state.branch = some branch →
    branch.condition < count ∧ branch.onTrue < count ∧
      branch.onFalse < count ∧ state.ranges = [] ∧
        state.outside = .nowhere ∧ state.isFinal = false

end State

/-! ## States that read -/

namespace Numbering

variable {nfa : Nfa} {isLazy : Nat → Bool} {numbering : Numbering} {key : Key}
  {state : State} {edges : List (CharSet × Nat)}
  {resolve : List Nat → Option Nat} {dispatch : Dispatch} {number : Nat}

/-- What holds outside the ranges. -/
abbrev outsideRow (edges : List (CharSet × Nat))
    (resolve : List Nat → Option Nat) : Row :=
  rowOf (pointTarget edges resolve none)

/-- What a cell does tells categories apart properly, and leads to the targets
that the interval asks for. -/
theorem exclusive_cellOf
    {interval : CodeRange}
    (found : (cellOf edges resolve interval).dispatch?
      (outsideRow edges resolve) = some dispatch) :
    dispatch.Exclusive ∧ ∀ number, dispatch.LeadsTo number → ∃ category,
      (isSurrogate interval.first = true ↔ category = .surrogate) ∧
        pointTarget edges resolve (some interval.first) category =
          some number := by
  unfold cellOf at found
  split at found
  · next inGap =>
      rw [Cell.dispatch?, Option.ite_none_left_eq_some] at found
      obtain ⟨-, isDispatch⟩ := found
      obtain rfl := Option.some.inj isDispatch
      refine ⟨Dispatch.exclusive_uniform _, fun number leads => ?_⟩
      rcases leads with ⟨transition, impossible, -⟩ | isTarget
      · cases impossible
      · exact ⟨.surrogate, by simp [inGap], isTarget⟩
  · next notInGap =>
      rw [Cell.dispatch?, Option.ite_none_left_eq_some] at found
      obtain ⟨-, isDispatch⟩ := found
      obtain rfl := Option.some.inj isDispatch
      refine ⟨Dispatch.exclusive_ofRow _, fun number leads => ?_⟩
      obtain ⟨category, other, isTarget⟩ :=
        Dispatch.exists_of_leadsTo_ofRow leads
      exact ⟨category, by simp [notInGap, other], isTarget⟩

/-- The transitions of a state before neighbours are joined. -/
abbrev unjoined (edges : List (CharSet × Nat))
    (resolve : List Nat → Option Nat) : List RangeTransition :=
  cellTransitions (outsideRow edges resolve)
    ((intervals edges).map fun interval =>
      (interval, cellOf edges resolve interval))

theorem exists_cellOf_of_mem_unjoined
    {transition : RangeTransition}
    (member : transition ∈ unjoined edges resolve) :
    transition.range ∈ intervals edges ∧
      (cellOf edges resolve transition.range).dispatch?
        (outsideRow edges resolve) = some transition.dispatch := by
  obtain ⟨_, isEntry, found⟩ := List.mem_filterMap.mp member
  obtain ⟨interval, isInterval, rfl⟩ := List.mem_map.mp isEntry
  obtain ⟨dispatch, isDispatch, rfl⟩ := Option.map_eq_some_iff.mp found
  exact ⟨isInterval, isDispatch⟩

theorem pairwise_unjoined :
    (unjoined edges resolve).Pairwise fun left right =>
      left.range.last < right.range.first := by
  have ordered : ((intervals edges).map fun interval =>
      (interval, cellOf edges resolve interval)).Pairwise fun left right =>
        left.1.last < right.1.first :=
    (pairwise_intervalsBetween (ascends_ascending _)).map _
      fun _ _ less => less
  refine ordered.filterMap _ fun left right less first isFirst second isSecond => ?_
  obtain ⟨_, -, rfl⟩ := Option.map_eq_some_iff.mp isFirst
  obtain ⟨_, -, rfl⟩ := Option.map_eq_some_iff.mp isSecond
  exact less

/-- What a state does anywhere tells categories apart properly, and leads to
targets that it asks for. -/
theorem exclusive_readingState
    (member : dispatch ∈
      (readingState nfa isLazy resolve key).dispatches) :
    dispatch.Exclusive ∧ ∀ number, dispatch.LeadsTo number →
      ∃ point category, Asks (nfa.readingEdges isLazy key.nodes) point category ∧
        pointTarget (nfa.readingEdges isLazy key.nodes) resolve point category =
          some number := by
  rcases List.mem_cons.mp member with rfl | inRange
  · refine ⟨Dispatch.exclusive_ofRow _, fun number leads => ?_⟩
    obtain ⟨category, other, isTarget⟩ :=
      Dispatch.exists_of_leadsTo_ofRow leads
    exact ⟨none, category, .outside other, isTarget⟩
  · obtain ⟨transition, isTransition, rfl⟩ := List.mem_map.mp inRange
    obtain ⟨_, -, stop, isStop, rfl⟩ :=
      exists_of_mem_joinRanges transition isTransition
    obtain ⟨isInterval, isDispatch⟩ := exists_cellOf_of_mem_unjoined isStop
    obtain ⟨exclusive, leads⟩ := exclusive_cellOf isDispatch
    refine ⟨exclusive, fun number leadsTo => ?_⟩
    obtain ⟨category, isGap, isTarget⟩ := leads number leadsTo
    exact ⟨_, category, .inside isInterval isGap, isTarget⟩

/-- A state that reads leads to states of nodes behind its edges. -/
theorem Makes.exists_seeds
    (makes : Makes nfa isLazy numbering key state)
    (complete : nfa.undecided? key = none)
    (member : dispatch ∈ state.dispatches)
    (leads : dispatch.LeadsTo number) :
    ∃ seeds, numbering.keys[number]? = some (nfa.freshKey seeds) ∧
      ∀ seed ∈ seeds, ∃ edge ∈ nfa.readingEdges isLazy key.nodes,
        edge.2 = seed := by
  obtain ⟨rfl, resolved⟩ := makes.reads complete
  obtain ⟨point, category, asks, isTarget⟩ :=
    (exclusive_readingState member).2 number leads
  refine ⟨targets (openEdges (nfa.readingEdges isLazy key.nodes) point)
    category, ?_, fun seed isSeed => ?_⟩
  · rcases resolved point category asks with
      ⟨-, isNone⟩ | ⟨-, found, isFound, isKey⟩
    · rw [pointTarget, isNone] at isTarget
      cases isTarget
    · rw [pointTarget, isFound] at isTarget
      exact Option.some.inj isTarget ▸ isKey
  · obtain ⟨edge, isEdge, -, isSeedTarget⟩ := mem_targets.mp isSeed
    exact ⟨edge, isEdge, isSeedTarget⟩

/-- A state that is made from its key has the shape of a state. -/
theorem Makes.shaped
    (makes : Makes nfa isLazy numbering key state) :
    state.Shaped numbering.keys.size := by
  have inside {number : Nat} {found : Key}
      (isKey : numbering.keys[number]? = some found) :
      number < numbering.keys.size :=
    (Array.getElem?_eq_some_iff.mp isKey).1
  cases found : nfa.undecided? key with
  | some entry =>
      obtain ⟨branch, rfl, isStart, isTrue, isFalse⟩ := makes.branches found
      constructor
      · simp
      · simp
      · exact .nil
      · intro dispatch member
        obtain rfl := List.mem_singleton.mp member
        exact Dispatch.exclusive_uniform none
      · intro dispatch member target leads
        obtain rfl := List.mem_singleton.mp member
        exact absurd leads Dispatch.not_leadsTo_nowhere
      · rintro _ ⟨⟩
        exact ⟨inside isStart, inside isTrue, inside isFalse, rfl, rfl, rfl⟩
  | none =>
      have targets : ∀ dispatch ∈ state.dispatches, ∀ target,
          dispatch.LeadsTo target → target < numbering.keys.size := by
        intro dispatch member target leads
        obtain ⟨seeds, isKey, -⟩ := makes.exists_seeds found member leads
        exact inside isKey
      obtain ⟨rfl, -⟩ := makes.reads found
      refine ⟨fun transition member => ?_, fun transition member => ?_,
        pairwise_joinRanges pairwise_unjoined,
        fun dispatch member => (exclusive_readingState member).1, targets, ?_⟩
      · exact nonempty_joinRanges (fun other isOther =>
          nonempty_of_mem_intervals
            (exists_cellOf_of_mem_unjoined isOther).1) transition member
      · obtain ⟨_, -, stop, isStop, rfl⟩ :=
          exists_of_mem_joinRanges transition member
        have below :=
          last_lt_of_mem_intervals (exists_cellOf_of_mem_unjoined isStop).1
        exact Nat.le_of_lt_succ below
      · rintro _ ⟨⟩

/-- A state has a terminal where it is final and its nodes accept one. -/
theorem Makes.isSome_terminal_iff
    (makes : Makes nfa isLazy numbering key state) :
    state.terminal.isSome = true ↔ state.isFinal = true ∧
      ∃ node ∈ key.nodes, ∃ index,
        (nfa.node node).accept = some (.terminal index) := by
  cases found : nfa.undecided? key with
  | some entry =>
      obtain ⟨branch, rfl, -⟩ := makes.branches found
      simp
  | none =>
      obtain ⟨rfl, -⟩ := makes.reads found
      have accepts : (nfa.terminal? key.nodes).isSome = true ↔
          ∃ node ∈ key.nodes, ∃ index,
            (nfa.node node).accept = some (.terminal index) := by
        rw [← not_iff_not, Option.not_isSome_iff_eq_none,
          Nfa.terminal?_eq_none_iff]
        simp
      rw [readingState, ← accepts]
      simp only [Bool.or_eq_true]
      exact ⟨fun isSome => ⟨.inl isSome, isSome⟩, And.right⟩

end Numbering

/-- Every state of an automaton has the shape of one of its states, and has a
terminal just where it is final and stands for a node that accepts one. -/
theorem Automaton.shaped_states
    [CharacterData]
    (terminals : List Terminal)
    (anyCase : Bool) :
    ∃ numbering, Numbered terminals anyCase numbering ∧
      ∀ (number : Nat) (state : State),
        (build terminals anyCase).states[number]? = some state →
          state.Shaped (build terminals anyCase).states.size ∧
            ∃ key, numbering.keys[number]? = some key ∧
              (state.terminal.isSome = true ↔ state.isFinal = true ∧
                ∃ node ∈ key.nodes, ∃ index,
                  ((nfaOf terminals anyCase).node node).accept =
                    some (.terminal index)) := by
  obtain ⟨numbering, constructs⟩ := exists_numbered terminals anyCase
  refine ⟨numbering, constructs, fun number state isState => ?_⟩
  obtain ⟨key, isKey, makes⟩ := Constructs.exists_key constructs isState
  rw [Constructs.size_eq constructs]
  exact ⟨makes.shaped, key, isKey, makes.isSome_terminal_iff⟩

/-- A digit that no small letter follows, and a small letter or an
underscore. -/
def wordTerminals : List Terminal :=
  [⟨.concat [.set (.plain ⟨⟨[⟨48, 57⟩]⟩, .empty⟩),
      .lookahead (.set (.plain ⟨⟨[]⟩, .single .lowercaseLetter⟩)) true],
      false⟩,
    ⟨.set (.plain ⟨⟨[⟨95, 95⟩]⟩, .single .lowercaseLetter⟩), false⟩]

/-- The first state reads by ranges and by categories, and the third one
branches on the condition. -/
theorem Automaton.shaped_states_words :
    ∃ automaton reading branching,
      automaton = @build .smallLetters wordTerminals false ∧
      reading = ⟨[⟨⟨48, 57⟩, ⟨[
            ⟨Categories.scalars.subtract (.single .lowercaseLetter), 2⟩,
            ⟨.single .lowercaseLetter, 3⟩], none⟩⟩,
          ⟨⟨95, 95⟩, ⟨[], some 1⟩⟩],
        ⟨[⟨.single .lowercaseLetter, 1⟩], none⟩, false, none, none⟩ ∧
      automaton.states[0]? = some reading ∧
      State.Shaped automaton.states.size reading ∧
      branching = ⟨[], .nowhere, false, none, some ⟨4, 5, 6⟩⟩ ∧
      automaton.states[2]? = some branching ∧
      State.Shaped automaton.states.size branching := by
  have states : ((@build .smallLetters wordTerminals false).states[0]?,
      (@build .smallLetters wordTerminals false).states[2]?) =
      (some ⟨[⟨⟨48, 57⟩, ⟨[
            ⟨Categories.scalars.subtract (.single .lowercaseLetter), 2⟩,
            ⟨.single .lowercaseLetter, 3⟩], none⟩⟩,
          ⟨⟨95, 95⟩, ⟨[], some 1⟩⟩],
        ⟨[⟨.single .lowercaseLetter, 1⟩], none⟩, false, none, none⟩,
        some ⟨[], .nowhere, false, none, some ⟨4, 5, 6⟩⟩) := by
    cbv
  obtain ⟨isReading, isBranching⟩ := Prod.mk.inj states
  obtain ⟨numbering, -, shaped⟩ :=
    @shaped_states .smallLetters wordTerminals false
  exact ⟨_, _, _, rfl, rfl, isReading, (shaped 0 _ isReading).1, rfl,
    isBranching, (shaped 2 _ isBranching).1⟩

end Lexical
end ParserGenerator
