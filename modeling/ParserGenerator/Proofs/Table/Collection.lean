import ParserGenerator.Proofs.Table.Lookaheads
import ParserGenerator.Proofs.Table.Overrides

/-!
# The collection of kernels

The states of a table are the sets of items without lookaheads that moving over
symbols leads to from the start of the goal. They are numbered once each, and
the transitions between them are the moves. The exploration that finds them
comes to its end by itself.
-/

namespace ParserGenerator
namespace Table

namespace Rules

/-- The items of a closure: those of the kernel, and the starts of the
productions of each non-terminal that comes after the dot of such an item. -/
inductive InClosure (rules : Rules) (kernel : List Item) : Item → Prop
  | given
      {item : Item}
      (member : item ∈ kernel) :
      InClosure rules kernel item
  | called
      {item : Item}
      {symbol : SymbolId}
      {production : ProductionId}
      (caller : InClosure rules kernel item)
      (next : rules.next? item = some symbol)
      (isNonTerminal : rules.grammar.isNonTerminal symbol = true)
      (heads : rules.head? production = some symbol) :
      InClosure rules kernel ⟨production, 0⟩

variable {rules : Rules} {kernel : List Item}

/-- The closure that is computed has just these items. -/
theorem mem_closure_iff_inClosure {item : Item} :
    item ∈ rules.closure kernel ↔ rules.InClosure kernel item := by
  constructor
  · intro member
    refine closure_induction (rules.InClosure kernel)
      (fun _ inKernel => .given inKernel) ?_ member
    intro caller _ inClosure production predicted
    obtain ⟨symbol, next, isNonTerminal, heads⟩ := mem_predicted.mp predicted
    exact .called inClosure next isNonTerminal heads
  · intro inClosure
    induction inClosure with
    | given member => exact mem_closure.mpr (.inl member)
    | called _ next isNonTerminal heads inductionHypothesis =>
        exact mem_closure_of_predicted inductionHypothesis
          (mem_predicted.mpr ⟨_, next, isNonTerminal, heads⟩)

/-! ## The end of the exploration -/

theorem exploreKernels_of_done
    {graph : KernelGraph}
    (done : graph.kernels[graph.gotos.size]? = none)
    (fuel : Nat) :
    rules.exploreKernels fuel graph = graph := by
  cases fuel with
  | zero => rfl
  | succ fuel => rw [exploreKernels, done]

/-- Exploration can be taken up again where it was left. -/
theorem exploreKernels_add
    (fuel more : Nat)
    (graph : KernelGraph) :
    rules.exploreKernels (fuel + more) graph =
      rules.exploreKernels more (rules.exploreKernels fuel graph) := by
  induction fuel generalizing graph with
  | zero => rw [Nat.zero_add, exploreKernels]
  | succ fuel inductionHypothesis =>
      rw [Nat.add_right_comm]
      cases found : graph.kernels[graph.gotos.size]? with
      | none => simp only [exploreKernels_of_done found]
      | some kernel =>
          simp only [exploreKernels, found]
          exact inductionHypothesis _

theorem extends_exploreKernels
    (fuel : Nat)
    (graph : KernelGraph) :
    Extends graph.kernels (rules.exploreKernels fuel graph).kernels := by
  induction fuel generalizing graph with
  | zero => exact .refl _
  | succ fuel inductionHypothesis =>
      cases found : graph.kernels[graph.gotos.size]? with
      | none =>
          rw [exploreKernels_of_done found]
          exact .refl _
      | some kernel =>
          rw [exploreKernels, found]
          exact (rules.extends_exploreOne graph kernel).trans
            (inductionHypothesis _)

/-- The exploration has stopped: no kernel is left without transitions. -/
theorem kernelGraph_done (rules : Rules) :
    rules.kernelGraph.kernels[rules.kernelGraph.gotos.size]? = none := by
  rw [rules.size_gotos_kernelGraph]
  exact Array.getElem?_eq_none (Nat.le_refl _)

/-- Exploration makes one pass for each kernel and then stops. -/
theorem exploreKernels_eq_kernelGraph
    {fuel : Nat}
    (enough : rules.kernelGraph.kernels.size ≤ fuel) :
    rules.exploreKernels fuel ⟨#[rules.startKernel], #[]⟩ =
      rules.kernelGraph := by
  let bound := (1 <<< rules.itemCount) + 1
  have isGraph : rules.kernelGraph =
      rules.exploreKernels bound ⟨#[rules.startKernel], #[]⟩ := rfl
  rcases Nat.le_total bound fuel with atLeast | atMost
  · obtain ⟨more, rfl⟩ := Nat.exists_eq_add_of_le atLeast
    rw [exploreKernels_add, ← isGraph,
      exploreKernels_of_done rules.kernelGraph_done]
  · -- The kernels found with less fuel are among those of the graph, so there
    -- are no more of them than passes made, and each has its transitions.
    obtain ⟨more, isBound⟩ := Nat.exists_eq_add_of_le atMost
    rw [isBound, exploreKernels_add] at isGraph
    generalize isPart : rules.exploreKernels fuel
      ⟨#[rules.startKernel], #[]⟩ = part at isGraph
    have few : part.kernels.size ≤ fuel :=
      Nat.le_trans (isGraph ▸ extends_exploreKernels more part).size_le enough
    obtain ⟨explored, ends⟩ :=
      explored_exploreKernels fuel rules.explored_start
    rw [isPart] at explored ends
    have done : part.kernels[part.gotos.size]? = none := by
      refine Array.getElem?_eq_none ?_
      rcases ends with complete | used
      · exact Nat.le_of_eq complete.symm
      · simpa [used] using few
    rw [isGraph, exploreKernels_of_done done]

/-! ## The symbol before a state -/

/-- The symbol before the dot of an item. -/
theorem accessing?_cons
    {production : ProductionId}
    {dot : Nat}
    {rest : List Item} :
    rules.analysis.accessing? (⟨production, dot + 1⟩ :: rest) =
      rules.next? ⟨production, dot⟩ := rfl

/-- A state that a transition leads to is accessed over its symbol. -/
theorem accessing?_moved
    {symbol : SymbolId}
    (asked : ∃ item ∈ rules.closure kernel, rules.next? item = some symbol) :
    rules.analysis.accessing? (rules.moved kernel symbol) = some symbol := by
  obtain ⟨item, member, next⟩ := asked
  cases isMoved : rules.moved kernel symbol with
  | nil =>
      have inMoved := mem_moved.mpr ⟨item, member, next, rfl⟩
      simp [isMoved] at inMoved
  | cons first rest =>
      obtain ⟨before, -, beforeNext, rfl⟩ :=
        mem_moved.mp (isMoved ▸ List.mem_cons_self : first ∈ _)
      exact accessing?_cons.trans beforeNext

end Rules

theorem Analysis.accessing_of_parserState
    {analysis : Analysis}
    {resolver : Option Resolver}
    {state : Nat}
    {kernel : List LookaheadItem}
    {gotos : List (SymbolId × Nat)}
    {entry : ParserState}
    (built : (analysis.parserState resolver state kernel gotos).2 =
      .ok entry) :
    entry.accessing = analysis.accessing? (kernel.map Prod.fst) := by
  unfold parserState at built
  cases chosen : (analysis.chooseAll resolver
      (analysis.candidates state gotos (analysis.closure kernel))
      (analysis.actionSymbols (analysis.closure kernel))).2 with
  | error error => simp [chosen, Except.map] at built
  | ok actions =>
      simp only [chosen, Except.map] at built
      obtain rfl := Except.ok.inj built
      rfl

/-- The items of a state without lookaheads. -/
def ParserState.items (entry : ParserState) : List Item :=
  entry.kernel.map Prod.fst

namespace Rules

variable {rules : Rules} {resolver : Option Resolver} {table : Table}
  {state : Nat} {entry : ParserState}

/-- The items of a state are its kernel. -/
theorem kernel_of_construct
    (built : (rules.construct resolver).result = .ok table)
    (found : table.states[state]? = some entry) :
    rules.kernelGraph.kernels[state]? = some entry.items := by
  obtain ⟨sameSize, correct⟩ := states_of_construct built
  have inside := (Array.getElem?_eq_some_iff.mp found).1
  have isKernel := Array.getElem?_eq_getElem (sameSize ▸ inside)
  rw [ParserState.items, (correct state entry found).1,
    map_lookaheadKernel isKernel, isKernel]

/-- Every kernel has a state. -/
theorem exists_state_of_construct
    (built : (rules.construct resolver).result = .ok table)
    {kernel : List Item}
    (found : rules.kernelGraph.kernels[state]? = some kernel) :
    ∃ entry, table.states[state]? = some entry ∧ entry.items = kernel := by
  have sameSize := (states_of_construct built).1
  have inside := (Array.getElem?_eq_some_iff.mp found).1
  have isEntry := Array.getElem?_eq_getElem (sameSize ▸ inside)
  exact ⟨_, isEntry,
    Option.some.inj ((kernel_of_construct built isEntry).symm.trans found)⟩

theorem accessing_of_construct
    (built : (rules.construct resolver).result = .ok table)
    (found : table.states[state]? = some entry) :
    entry.accessing = rules.analysis.accessing? entry.items := by
  obtain ⟨gotos, -, isState⟩ :=
    (parserState_of_construct built).2 state entry found
  have accessed := Analysis.accessing_of_parserState isState
  rw [← (Analysis.parts_of_parserState isState).1] at accessed
  exact accessed

/-- The items of a table's states are the kernels, in the order of their
numbers. -/
theorem map_items_of_construct
    (built : (rules.construct resolver).result = .ok table) :
    table.states.toList.map ParserState.items =
      rules.kernelGraph.kernels.toList := by
  have sameSize := (states_of_construct built).1
  refine List.ext_getElem (by simpa using sameSize) fun state inside _ => ?_
  have isState : state < table.states.size := by simpa using inside
  have isKernel :=
    kernel_of_construct built (Array.getElem?_eq_getElem isState)
  simpa using (Array.getElem?_eq_some_iff.mp isKernel).2.symm

end Rules

/-- The states of a table are the sets of items that moving over symbols leads
to. -/
structure Collects (rules : Rules) (table : Table) : Prop where
  /-- The first state is the start of the goal. -/
  start : table.states[0]?.map ParserState.items = some [⟨rules.accept, 0⟩]
  /-- The items of a state are in order, none of them twice. -/
  ordered : ∀ entry ∈ table.states, entry.items.Pairwise Item.Precedes
  /-- Different states have different items. -/
  distinct : (table.states.toList.map ParserState.items).Nodup
  /-- Every state is reached from the first one. -/
  reached : ∀ state < table.states.size,
    ∃ symbols, table.follow 0 symbols = some state
  /-- There is a transition over a symbol if and only if some item of the
  closure asks for it. -/
  goto_isSome_iff : ∀ (state : Nat) (entry : ParserState),
    table.states[state]? = some entry → ∀ symbol,
      (table.goto state symbol).isSome = true ↔
        ∃ item, rules.InClosure entry.items item ∧
          rules.next? item = some symbol
  /-- A transition leads to the items that ask for its symbol, moved over it,
  and the state is accessed over this symbol. -/
  target : ∀ (state : Nat) (entry : ParserState),
    table.states[state]? = some entry → ∀ symbol target,
      table.goto state symbol = some target →
        ∃ next, table.states[target]? = some next ∧
          next.accessing = some symbol ∧
          ∀ item, item ∈ next.items ↔
            ∃ before, rules.InClosure entry.items before ∧
              rules.next? before = some symbol ∧ before.advance = item
  /-- Only the first state is not accessed over a symbol. -/
  accessing_eq_none_iff : ∀ (state : Nat) (entry : ParserState),
    table.states[state]? = some entry →
      (entry.accessing = none ↔ state = 0)

namespace Rules

variable {rules : Rules} {resolver : Option Resolver} {table : Table}

/-- A transition leads to a state that is accessed over its symbol. -/
theorem exists_target_of_goto
    (built : (rules.construct resolver).result = .ok table)
    {state target : Nat}
    {symbol : SymbolId}
    {kernel : List Item}
    (found : rules.kernelGraph.kernels[state]? = some kernel)
    (edge : rules.kernelGraph.goto state symbol = some target) :
    ∃ next, table.states[target]? = some next ∧
      next.accessing = some symbol ∧
      next.items = rules.moved kernel symbol := by
  obtain ⟨movedFound, asked⟩ := kernel_of_goto found edge
  obtain ⟨next, isNext, isMoved⟩ := exists_state_of_construct built movedFound
  refine ⟨next, isNext, ?_, isMoved⟩
  rw [accessing_of_construct built isNext, isMoved]
  exact accessing?_moved asked

/-- A state other than the first one is accessed over some symbol. -/
theorem accessing_eq_none_iff_of_construct
    (built : (rules.construct resolver).result = .ok table)
    {state : Nat}
    {entry : ParserState}
    (found : table.states[state]? = some entry) :
    entry.accessing = none ↔ state = 0 := by
  have isKernel := kernel_of_construct built found
  have explored := rules.explored_kernelGraph
  constructor
  · intro notAccessed
    have inside := (Array.getElem?_eq_some_iff.mp isKernel).1
    rcases (explored.reached state inside).cases_tail with
      rfl | ⟨source, -, symbol, edge⟩
    · rfl
    · have sourceInside : source < rules.kernelGraph.kernels.size := by
        obtain ⟨edges, edgesFound, -⟩ := Option.bind_eq_some_iff.mp edge
        have inGotos := (Array.getElem?_eq_some_iff.mp edgesFound).1
        exact rules.size_gotos_kernelGraph ▸ inGotos
      obtain ⟨next, isNext, accessed, -⟩ := exists_target_of_goto built
        (Array.getElem?_eq_getElem sourceInside) edge
      obtain rfl := Option.some.inj (found.symm.trans isNext)
      simp [accessed] at notAccessed
  · rintro rfl
    rw [accessing_of_construct built found,
      Option.some.inj (isKernel.symm.trans explored.first)]
    rfl

/-- The states of a table that is built are the collection of kernels. -/
theorem collects_of_construct
    (built : (rules.construct resolver).result = .ok table) :
    Collects rules table where
  start := by
    obtain ⟨entry, found, isStart⟩ :=
      exists_state_of_construct built rules.explored_kernelGraph.first
    rw [found, Option.map_some, isStart, startKernel]
  ordered entry member := by
    obtain ⟨state, inside, rfl⟩ := Array.mem_iff_getElem.mp member
    have isKernel :=
      kernel_of_construct built (Array.getElem?_eq_getElem inside)
    exact (rules.explored_kernelGraph.isKernel _ _ isKernel).ordered
  distinct := by
    rw [map_items_of_construct built]
    exact rules.explored_kernelGraph.distinct
  reached state inside := by
    rw [(states_of_construct built).1] at inside
    obtain ⟨symbols, leads⟩ := exists_stateAfter inside
    exact ⟨symbols, (follow_of_construct built symbols).trans leads⟩
  goto_isSome_iff state entry found symbol := by
    have isKernel := kernel_of_construct built found
    simp only [goto_of_construct built, ← mem_closure_iff_inClosure]
    constructor
    · intro leads
      obtain ⟨target, edge⟩ := Option.isSome_iff_exists.mp leads
      exact (kernel_of_goto isKernel edge).2
    · rintro ⟨item, member, next⟩
      exact Option.isSome_iff_exists.mpr (exists_goto isKernel member next)
  target state entry found symbol target edge := by
    rw [goto_of_construct built] at edge
    obtain ⟨next, isNext, accessed, isMoved⟩ := exists_target_of_goto built
      (kernel_of_construct built found) edge
    refine ⟨next, isNext, accessed, fun item => ?_⟩
    simp only [isMoved, mem_moved, ← mem_closure_iff_inClosure]
  accessing_eq_none_iff _ _ found :=
    accessing_eq_none_iff_of_construct built found

end Rules

/-- The states without lookaheads, for every grammar and goal. The exploration
comes to its end: after one pass for each kernel no kernel is left without
transitions, and further passes change nothing. The states of a table that is
built are the collection of these kernels. -/
theorem states_collected
    (grammar : Grammar)
    (goal : SymbolId)
    (resolver : Option Resolver) :
    let rules : Rules := ⟨grammar, goal⟩
    (rules.kernelGraph.gotos.size = rules.kernelGraph.kernels.size ∧
      ∀ fuel ≥ rules.kernelGraph.kernels.size,
        rules.exploreKernels fuel ⟨#[[⟨rules.accept, 0⟩]], #[]⟩ =
          rules.kernelGraph) ∧
    ∀ table, (construct grammar goal resolver).result = .ok table →
      Collects rules table := by
  refine ⟨⟨Rules.size_gotos_kernelGraph _, fun fuel enough => ?_⟩,
    fun table built => ?_⟩
  · exact Rules.exploreKernels_eq_kernelGraph enough
  · exact Rules.collects_of_construct (Rules.construct_of_ok built)

/-- Before `y` the two complete items of `x` are in one state with the two that
shift, which is accessed over `x` only. -/
theorem states_collected_yielding :
    (construct yieldingRules.grammar 6 (some .first)).result =
        .ok yieldingTable ∧
      (yieldingTable.goto 1 4 = some 5 ∧
        ∃ item, yieldingRules.InClosure [⟨0, 1⟩, ⟨3, 1⟩, ⟨5, 1⟩, ⟨6, 1⟩] item ∧
          yieldingRules.next? item = some 4) ∧
      ∃ symbols, yieldingTable.follow 0 symbols = some 9 := by
  have collects := (states_collected yieldingRules.grammar 6 (some .first)).2
    yieldingTable construct_yieldingRules
  refine ⟨construct_yieldingRules, ⟨by decide, ?_⟩,
    collects.reached 9 (by decide)⟩
  exact (collects.goto_isSome_iff 1 _ rfl 4).mp (by decide)

end Table
end ParserGenerator
