import ParserGenerator.Proofs.Grammar.Declaring
import ParserGenerator.Proofs.Table.Actions
import ParserGenerator.Proofs.Table.Conflicts
import ParserGenerator.Proofs.Table.Viable

/-!
# The cells of an action row

Whatever the overrides and the resolver of a table, the row of a state has a
cell for each symbol on which its closure can reduce or shift, and for no other
symbol. The cell holds one of the actions that compete there.
-/

namespace ParserGenerator
namespace Table
namespace Rules

/-- The complete item of a production is in the closure of a kernel and the
symbol may follow it. -/
def CompletesIn (rules : Rules) (kernel : List LookaheadItem)
    (symbol : SymbolId) (production : ProductionId) : Prop :=
  rules.Follows kernel ⟨production, (rules.body production).length⟩ symbol

/-- An item with the symbol after its dot is in the closure of a kernel. -/
def ExpectsIn (rules : Rules) (kernel : List LookaheadItem)
    (symbol : SymbolId) : Prop :=
  ∃ item ∈ rules.closure (kernel.map Prod.fst), rules.next? item = some symbol

variable {rules : Rules} {resolver : Option Resolver} {table : Table}
  {candidates : Candidates} {state : Nat} {symbol : SymbolId}
  {kernel : List Item}

/-! ## Something is chosen -/

/-- Where a choice comes to nothing, nothing competes. -/
theorem not_offers_of_choose_none
    {action : Action}
    (chosen : (rules.choose resolver candidates).2 = .ok none) :
    ¬ candidates.Offers rules action := by
  intro offers
  unfold choose at chosen
  split at chosen
  · next reducesIs =>
      cases offers with
      | shift offered => simp [offered] at chosen
      | reduce offered => simp [reducesIs] at offered
  · simp at chosen
  · unfold chooseShift at chosen
    dsimp only at chosen
    repeat' split at chosen
    all_goals simp at chosen
  · unfold chooseReduce chooseCore at chosen
    dsimp only at chosen
    repeat' split at chosen
    all_goals simp at chosen

/-- Something applies on the symbols on which an item is complete or asks for a
symbol that is not a non-terminal. -/
theorem mem_actionSymbols :
    symbol ∈ rules.analysis.actionSymbols (rules.lookaheadClosure state) ↔
      (∃ production, rules.Completes state symbol production) ∨
        rules.grammar.isNonTerminal symbol = false ∧
          ∃ production, rules.Expects state symbol production := by
  unfold Analysis.actionSymbols
  rw [mem_ascending, List.mem_flatMap]
  constructor
  · rintro ⟨⟨item, symbols⟩, member, applies⟩
    dsimp only at applies
    split at applies
    · next complete =>
        exact .inl ⟨_, item, ⟨symbols, member, applies⟩, complete, rfl⟩
    · next other next =>
        split at applies
        · simp at applies
        · next isTerminal =>
            obtain rfl := List.mem_singleton.mp applies
            refine .inr ⟨Bool.eq_false_iff.mpr isTerminal, _, item, ?_, next,
              rfl⟩
            exact ⟨symbols, member⟩
  · rintro (⟨_, item, ⟨symbols, member, looks⟩, complete, -⟩ |
      ⟨isTerminal, _, item, ⟨symbols, member⟩, next, -⟩)
    · refine ⟨_, member, ?_⟩
      simpa [complete] using looks
    · refine ⟨_, member, ?_⟩
      simp [next, isTerminal]

/-- There is something to choose among for each symbol on which something
applies. -/
theorem exists_offers
    (found : rules.kernelGraph.kernels[state]? = some kernel)
    (applies :
      symbol ∈ rules.analysis.actionSymbols (rules.lookaheadClosure state)) :
    ∃ action, (rules.candidatesIn state symbol).Offers rules action := by
  rcases mem_actionSymbols.mp applies with
    ⟨production, completes⟩ | ⟨isTerminal, _, item, inClosure, next, -⟩
  · exact ⟨_, .reduce (mem_reduces_candidatesIn.mpr completes)⟩
  · obtain ⟨target, edge⟩ :=
      exists_goto found ((mem_lookaheadClosure found).mp inClosure) next
    exact ⟨_, .shift ((shift_candidatesIn found).mpr ⟨edge, isTerminal⟩)⟩

/-- The row of a state has a cell for each symbol on which something
applies. -/
theorem isSome_action_iff
    (built : (rules.construct resolver).result = .ok table)
    (found : rules.kernelGraph.kernels[state]? = some kernel) :
    (table.action state symbol).isSome = true ↔
      symbol ∈ rules.analysis.actionSymbols (rules.lookaheadClosure state) := by
  rw [Option.isSome_iff_exists]
  constructor
  · rintro ⟨action, acts⟩
    exact ((action_of_construct built).mp acts).2.1
  · intro applies
    have inside := (Array.getElem?_eq_some_iff.mp found).1
    obtain ⟨sameSize, correct⟩ := states_of_construct built
    have chosenAll :=
      (correct state _ (Array.getElem?_eq_getElem (sameSize ▸ inside))).2.2
    obtain ⟨choice, chosen⟩ :=
      Analysis.exists_choice_of_chooseAll chosenAll applies
    obtain ⟨offered, offers⟩ := exists_offers found applies
    cases choice with
    | none => exact absurd offers (not_offers_of_choose_none chosen)
    | some action =>
        exact ⟨action,
          (action_of_construct built).mpr ⟨inside, applies, chosen⟩⟩

/-! ## The closure of a state -/

/-- What is complete in a state, by the closure of its kernel. -/
theorem completes_iff
    (wellFormed : rules.WellFormed)
    (found : rules.kernelGraph.kernels[state]? = some kernel)
    {production : ProductionId} :
    rules.Completes state symbol production ↔
      rules.CompletesIn (rules.lookaheadKernel state) symbol production := by
  unfold CompletesIn
  rw [← looks_iff_follows wellFormed]
  constructor
  · rintro ⟨⟨other, dot⟩, looks, complete, rfl⟩
    have isKernel := rules.explored_kernelGraph.isKernel state kernel found
    have atEnd : dot = (rules.body other).length :=
      dot_eq_of_next?_eq_none isKernel (looks.mem_closure found) complete
    exact atEnd ▸ looks
  · intro looks
    exact ⟨_, looks, List.getElem?_eq_none_iff.mpr (Nat.le_refl _), rfl⟩

/-- What is asked for in a state, by the closure of its kernel. -/
theorem expects_iff
    (found : rules.kernelGraph.kernels[state]? = some kernel) :
    (∃ production, rules.Expects state symbol production) ↔
      rules.ExpectsIn (rules.lookaheadKernel state) symbol := by
  unfold ExpectsIn
  rw [map_lookaheadKernel found]
  constructor
  · rintro ⟨_, item, inClosure, next, -⟩
    exact ⟨item, (mem_lookaheadClosure found).mp inClosure, next⟩
  · rintro ⟨item, member, next⟩
    exact ⟨_, item, (mem_lookaheadClosure found).mpr member, next, rfl⟩

/-! ## The state after the goal -/

/-- A state in which the goal is complete is the one after the goal. -/
theorem goto_zero_goal
    (found : rules.kernelGraph.kernels[state]? = some kernel)
    (complete : ⟨rules.accept, 1⟩ ∈ rules.closure kernel) :
    rules.kernelGraph.goto 0 rules.goal = some state := by
  have explored := rules.explored_kernelGraph
  have inKernel : ⟨rules.accept, 1⟩ ∈ kernel :=
    (mem_closure.mp complete).resolve_right (by simp)
  have inside := (Array.getElem?_eq_some_iff.mp found).1
  rcases (explored.reached state inside).cases_tail with
    rfl | ⟨source, _, other, edge⟩
  · have isStart := Option.some.inj (found.symm.trans explored.first)
    simp [isStart, startKernel] at inKernel
  · -- The goal is complete after the state in which it starts.
    have sourceInside : source < rules.kernelGraph.kernels.size := by
      obtain ⟨edges, edgesFound, -⟩ := Option.bind_eq_some_iff.mp edge
      have := (Array.getElem?_eq_some_iff.mp edgesFound).1
      exact rules.size_gotos_kernelGraph ▸ this
    have sourceFound := Array.getElem?_eq_getElem sourceInside
    obtain ⟨movedFound, -⟩ := kernel_of_goto sourceFound edge
    have isMoved := Option.some.inj (found.symm.trans movedFound)
    rw [isMoved] at inKernel
    obtain ⟨⟨production, dot⟩, starts, next, advanced⟩ := mem_moved.mp inKernel
    obtain ⟨rfl, same⟩ := Item.mk.inj advanced
    obtain rfl := Nat.succ.inj same
    have atStart : ⟨rules.accept, 0⟩ ∈
        rules.kernelGraph.kernels[source] := by
      rcases mem_closure.mp starts with inSource | ⟨-, called⟩
      · exact inSource
      · exact absurd rfl (Nat.ne_of_lt (lt_accept_of_mem_calledFor called))
    have isStart : rules.kernelGraph.kernels[source] = rules.startKernel := by
      rcases (explored.isKernel source _ sourceFound).moved with
        isStart | dots
      · exact isStart
      · exact absurd (dots _ atStart) (Nat.lt_irrefl 0)
    obtain rfl : source = 0 :=
      explored.state_unique sourceFound (isStart ▸ explored.first)
    have isGoal : rules.goal = other := by simpa [next?] using next
    exact isGoal ▸ edge

/-! ## What a cell holds -/

theorem expects_of_action_shift
    (built : (rules.construct resolver).result = .ok table)
    (found : rules.kernelGraph.kernels[state]? = some kernel)
    {target : Nat}
    (acts : table.action state symbol = some (.shift target)) :
    table.goto state symbol = some target ∧
      rules.grammar.isNonTerminal symbol = false ∧
      rules.ExpectsIn (rules.lookaheadKernel state) symbol := by
  obtain ⟨edge, isTerminal⟩ := goto_of_action_shift built acts
  refine ⟨edge, isTerminal, ?_⟩
  rw [goto_of_construct built] at edge
  obtain ⟨-, asked⟩ := kernel_of_goto found edge
  unfold ExpectsIn
  rw [map_lookaheadKernel found]
  exact asked

theorem completes_of_action_reduce
    (built : (rules.construct resolver).result = .ok table)
    {production : ProductionId}
    (acts : table.action state symbol = some (.reduce production)) :
    production ≠ rules.accept ∧ rules.Completes state symbol production := by
  obtain ⟨-, offers⟩ := offers_of_action built acts
  generalize isAction : Action.reduce production = action at offers
  cases offers with
  | shift offered => simp at isAction
  | @reduce other offered =>
      unfold reduceAction at isAction
      split at isAction
      · simp at isAction
      · next notAccept =>
          obtain rfl := Action.reduce.inj isAction
          exact ⟨notAccept, mem_reduces_candidatesIn.mp offered⟩

theorem lt_size_of_completes
    (found : rules.kernelGraph.kernels[state]? = some kernel)
    {production : ProductionId}
    (notAccept : production ≠ rules.accept)
    (completes : rules.Completes state symbol production) :
    production < rules.grammar.productions.size := by
  obtain ⟨item, looks, -, rfl⟩ := completes
  have isKernel := rules.explored_kernelGraph.isKernel state kernel found
  exact Nat.lt_of_le_of_ne
    (isKernel.known_closure (looks.mem_closure found)) notAccept

end Rules

/-- The rows of a table, whatever resolved its conflicts. A state has a cell on
just the symbols that may follow a complete item of its closure or that come,
not being non-terminals, after the dot of an item of it. A shift in a cell is
the transition of such an item, a reduction is of such a complete item, and a
table accepts only at the end of the source in the state after the goal. -/
theorem cells_hold_candidates
    (grammar : Grammar)
    (goal : SymbolId)
    (resolver : Option Resolver)
    (table : Table)
    (declared : grammar.Declared)
    (built : (construct grammar goal resolver).result = .ok table)
    (state : Nat)
    (entry : ParserState)
    (found : table.states[state]? = some entry)
    (symbol : SymbolId) :
    ((table.action state symbol).isSome = true ↔
      (∃ production,
        Rules.CompletesIn ⟨grammar, goal⟩ entry.kernel symbol production) ∨
      grammar.isNonTerminal symbol = false ∧
        Rules.ExpectsIn ⟨grammar, goal⟩ entry.kernel symbol) ∧
    (∀ target, table.action state symbol = some (.shift target) →
      table.goto state symbol = some target ∧
        grammar.isNonTerminal symbol = false ∧
        Rules.ExpectsIn ⟨grammar, goal⟩ entry.kernel symbol) ∧
    (∀ production, table.action state symbol = some (.reduce production) →
      production < grammar.productions.size ∧
        Rules.CompletesIn ⟨grammar, goal⟩ entry.kernel symbol production) ∧
    (table.action state symbol = some .accept →
      symbol = Grammar.endSymbol ∧ table.goto 0 goal = some state) := by
  have isBuilt := Rules.construct_of_ok built
  have wellFormed : Rules.WellFormed ⟨grammar, goal⟩ :=
    ⟨declared.wellFormed, Rules.goal_of_construct built⟩
  obtain ⟨sameSize, correct⟩ := Rules.states_of_construct isBuilt
  have inside := (Array.getElem?_eq_some_iff.mp found).1
  have isKernel := Array.getElem?_eq_getElem (sameSize ▸ inside)
  rw [(correct state entry found).1]
  refine ⟨?_, fun target acts => ?_, fun production acts => ?_, fun acts => ?_⟩
  · rw [Rules.isSome_action_iff isBuilt isKernel, Rules.mem_actionSymbols,
      Rules.expects_iff isKernel]
    simp only [Rules.completes_iff wellFormed isKernel]
  · exact Rules.expects_of_action_shift isBuilt isKernel acts
  · obtain ⟨notAccept, completes⟩ :=
      Rules.completes_of_action_reduce isBuilt acts
    exact ⟨Rules.lt_size_of_completes isKernel notAccept completes,
      (Rules.completes_iff wellFormed isKernel).mp completes⟩
  · obtain ⟨isEnd, kernel, kernelFound, complete⟩ :=
      Rules.mem_closure_of_action_accept isBuilt acts
    refine ⟨isEnd, ?_⟩
    rw [Rules.goto_of_construct isBuilt]
    exact Rules.goto_zero_goal kernelFound complete

theorem declared_yieldingGrammar : yieldingRules.grammar.Declared := by
  have rules : Grammar.Declared _ := (Grammar.Declared.empty false).declareAll
    [.terminal "x" (.text "x") ⟨false, false⟩,
      .terminal "y" (.text "y") ⟨false, false⟩,
      .terminal "z" (.text "z") ⟨false, false⟩,
      .nonTerminal "S", .nonTerminal "A", .nonTerminal "B",
      .rule 6 "S:1" "x y", .rule 6 "S:2" "A y", .rule 6 "S:3" "B y",
      .rule 6 "S:4" "x z", .rule 6 "S:5" "B z", .rule 7 "A:1" "x",
      .rule 8 "B:1" "x"]
    (by cbv)
  have yielding : Grammar.Declared _ :=
    @Grammar.Declared.shiftOn _ _ 5 ["y"] rules (by cbv)
  exact @Grammar.Declared.reduceOn _ _ 6 ["z"] yielding (by cbv)

/-- Before `y` an `x` can be an `A`; after the goal the table accepts. -/
theorem cells_hold_candidates_yielding :
    yieldingRules.grammar.Declared ∧
      (construct yieldingRules.grammar 6 (some .first)).result =
        .ok yieldingTable ∧
      Rules.CompletesIn yieldingRules
        [(⟨0, 1⟩, [0]), (⟨3, 1⟩, [0]), (⟨5, 1⟩, [4]), (⟨6, 1⟩, [4, 5])] 4 5 ∧
      yieldingTable.goto 0 6 = some 2 := by
  refine ⟨declared_yieldingGrammar, construct_yieldingRules, ?_, ?_⟩
  · obtain ⟨-, -, reduces, -⟩ := cells_hold_candidates yieldingRules.grammar 6
      (some .first) yieldingTable declared_yieldingGrammar
      construct_yieldingRules 1 _ rfl 4
    exact (reduces 5 (by decide)).2
  · obtain ⟨-, -, -, accepts⟩ := cells_hold_candidates yieldingRules.grammar 6
      (some .first) yieldingTable declared_yieldingGrammar
      construct_yieldingRules 2 _ rfl 0
    exact (accepts (by decide)).2

end Table
end ParserGenerator
