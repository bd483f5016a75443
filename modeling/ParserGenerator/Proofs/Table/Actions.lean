import ParserGenerator.Proofs.Table.States

/-!
# What actions tell about a state

Whatever resolved the conflicts of a table: a shift follows a transition, a
reduction is of a production whose body was just recognised, and a table
accepts only at the end of the source.
-/

namespace ParserGenerator
namespace Table
namespace Rules

variable {rules : Rules} {resolver : Option Resolver} {table : Table}
  {state : Nat} {symbol : SymbolId} {kernel : List Item}

/-! ## Complete items -/

theorem dot_le_of_mem_closure
    {item : Item}
    (isKernel : rules.IsKernel kernel)
    (member : item ∈ rules.closure kernel) :
    item.dot ≤ (rules.body item.production).length := by
  rcases mem_closure.mp member with inKernel | ⟨atStart, -⟩
  · exact isKernel.inBody item inKernel
  · exact atStart ▸ Nat.zero_le _

/-- The dot of an item that asks for nothing is at the end. -/
theorem dot_eq_of_next?_eq_none
    {item : Item}
    (isKernel : rules.IsKernel kernel)
    (member : item ∈ rules.closure kernel)
    (complete : rules.next? item = none) :
    item.dot = (rules.body item.production).length :=
  Nat.le_antisymm (dot_le_of_mem_closure isKernel member)
    (List.getElem?_eq_none_iff.mp complete)

/-! ## Lookaheads of the goal -/

/-- The production of the goal is never called for. -/
theorem mem_of_mem_closure_accept
    {item : Item}
    {symbols : SymbolSet}
    {kernel : List LookaheadItem}
    (member : (item, symbols) ∈ rules.analysis.closure kernel)
    (isAccept : item.production = rules.accept) :
    (item, symbols) ∈ kernel := by
  rcases Analysis.mem_closure.mp member with inKernel | ⟨other, called, same⟩
  · exact inKernel
  · obtain ⟨rfl, -⟩ := Prod.mk.inj same
    exact absurd isAccept (Nat.ne_of_lt (lt_accept_of_mem_calledFor called))

/-- An arrival of the goal comes from the goal and brings nothing of its
own. -/
theorem arrival_accept
    {source : Item}
    {slot : Slot}
    {symbols : SymbolSet}
    {reached : Item}
    (arrival : (slot, symbols) ∈
      rules.analysis.arrivals rules.kernelGraph state source)
    (isReached : rules.kernelGraph.item? slot = some reached)
    (isAccept : reached.production = rules.accept) :
    source.production = rules.accept ∧ symbols = [rules.analysis.fresh] := by
  obtain ⟨item, member, isTarget⟩ := Analysis.mem_arrivals.mp arrival
  obtain ⟨isAdvanced, -⟩ := Analysis.target?_eq_some isTarget
  obtain rfl := Option.some.inj (isReached.symm.trans isAdvanced)
  have inKernel := mem_of_mem_closure_accept member isAccept
  obtain ⟨rfl, rfl⟩ := Prod.mk.inj (List.mem_singleton.mp inKernel)
  exact ⟨isAccept, rfl⟩

/-- Only the end of the source follows the goal. -/
theorem eq_end_of_looks_accept
    {item : Item}
    (looks : rules.Looks state item symbol)
    (isAccept : item.production = rules.accept) :
    symbol = Grammar.endSymbol := by
  obtain ⟨symbols, member, symbolMember⟩ := looks
  obtain ⟨index, isItem, rfl⟩ :=
    mem_lookaheadKernel (mem_of_mem_closure_accept member isAccept)
  let onlyEnd (slot : Slot) (symbol : SymbolId) : Prop :=
    ∀ item, rules.kernelGraph.item? slot = some item →
      item.production = rules.accept → symbol = Grammar.endSymbol
  have within : rules.slotSets.Within onlyEnd := by
    refine Analysis.lookaheads_induction ?_ ?_ ?_
    · exact fun _ _ _ => rfl
    · rintro entry isEntry ⟨slot, symbols⟩ arrival symbol member notFresh
        reached isReached reachedAccept
      obtain ⟨source, -, isArrivals⟩ := Analysis.mem_allArrivals.mp isEntry
      obtain ⟨-, rfl⟩ :=
        arrival_accept (isArrivals ▸ arrival) isReached reachedAccept
      exact absurd (List.mem_singleton.mp member) notFresh
    · rintro entry isEntry ⟨slot, symbols⟩ arrival _ symbol sourceHolds
        reached isReached reachedAccept
      obtain ⟨source, isSource, isArrivals⟩ :=
        Analysis.mem_allArrivals.mp isEntry
      obtain ⟨sourceAccept, -⟩ :=
        arrival_accept (isArrivals ▸ arrival) isReached reachedAccept
      exact sourceHolds source isSource sourceAccept
  exact within _ symbol symbolMember item isItem isAccept

/-! ## Actions -/

/-- An action of a state is one of its candidates. -/
theorem offers_of_action
    {action : Action}
    (built : (rules.construct resolver).result = .ok table)
    (acts : table.action state symbol = some action) :
    (∃ kernel, rules.kernelGraph.kernels[state]? = some kernel) ∧
      (rules.candidatesIn state symbol).Offers rules action := by
  obtain ⟨inside, -, chosen⟩ := (action_of_construct built).mp acts
  refine ⟨⟨_, Array.getElem?_eq_getElem inside⟩,
    offers_of_choose (fun item member => ?_) chosen⟩
  obtain ⟨-, next, -⟩ := mem_shiftItems.mp member
  exact not_isComplete_of_next? next

/-- A shift follows a transition over a symbol that is not a non-terminal. -/
theorem goto_of_action_shift
    {target : Nat}
    (built : (rules.construct resolver).result = .ok table)
    (acts : table.action state symbol = some (.shift target)) :
    table.goto state symbol = some target ∧
      rules.grammar.isNonTerminal symbol = false := by
  obtain ⟨⟨kernel, found⟩, offers⟩ := offers_of_action built acts
  rw [goto_of_construct built]
  generalize isAction : Action.shift target = action at offers
  cases offers with
  | shift offered =>
      obtain rfl := Action.shift.inj isAction
      exact (shift_candidatesIn found).mp offered
  | reduce offered =>
      unfold reduceAction at isAction
      split at isAction <;> simp at isAction

/-- A production that is reduced is complete. -/
theorem mem_closure_of_offers_reduce
    {production : ProductionId}
    (found : rules.kernelGraph.kernels[state]? = some kernel)
    (offered : production ∈ (rules.candidatesIn state symbol).reduces) :
    ⟨production, (rules.body production).length⟩ ∈ rules.closure kernel := by
  obtain ⟨⟨other, dot⟩, looks, complete, rfl⟩ :=
    mem_reduces_candidatesIn.mp offered
  have member := looks.mem_closure found
  have isKernel := rules.explored_kernelGraph.isKernel state kernel found
  have atEnd := dot_eq_of_next?_eq_none isKernel member complete
  exact (show dot = (rules.body other).length from atEnd) ▸ member

theorem mem_closure_of_action_reduce
    {production : ProductionId}
    (built : (rules.construct resolver).result = .ok table)
    (acts : table.action state symbol = some (.reduce production)) :
    production ≠ rules.accept ∧
      ∃ kernel, rules.kernelGraph.kernels[state]? = some kernel ∧
        ⟨production, (rules.body production).length⟩ ∈
          rules.closure kernel := by
  obtain ⟨⟨kernel, found⟩, offers⟩ := offers_of_action built acts
  generalize isAction : Action.reduce production = action at offers
  cases offers with
  | shift offered => simp at isAction
  | @reduce other offered =>
      unfold reduceAction at isAction
      split at isAction
      · simp at isAction
      · next notAccept =>
          obtain rfl := Action.reduce.inj isAction
          exact ⟨notAccept, kernel, found,
            mem_closure_of_offers_reduce found offered⟩

/-- A table accepts the goal at the end of the source. -/
theorem mem_closure_of_action_accept
    (built : (rules.construct resolver).result = .ok table)
    (acts : table.action state symbol = some .accept) :
    symbol = Grammar.endSymbol ∧
      ∃ kernel, rules.kernelGraph.kernels[state]? = some kernel ∧
        ⟨rules.accept, 1⟩ ∈ rules.closure kernel := by
  obtain ⟨⟨kernel, found⟩, offers⟩ := offers_of_action built acts
  generalize isAction : Action.accept = action at offers
  cases offers with
  | shift offered => simp at isAction
  | @reduce other offered =>
      unfold reduceAction at isAction
      split at isAction
      · next isAccept =>
          subst isAccept
          have member := mem_closure_of_offers_reduce found offered
          rw [body_accept] at member
          obtain ⟨item, looks, -, itemAccept⟩ :=
            mem_reduces_candidatesIn.mp offered
          exact ⟨eq_end_of_looks_accept looks itemAccept, kernel, found,
            member⟩
      · simp at isAction

end Rules
end Table
end ParserGenerator
