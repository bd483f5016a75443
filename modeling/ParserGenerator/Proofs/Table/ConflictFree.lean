import ParserGenerator.Proofs.Table.Actions
import ParserGenerator.Proofs.Table.Viable

/-!
# Tables without conflicts

Where nothing decides between actions, a table is built only if no two of them
compete. Every item then determines the action: a complete item is reduced on
the symbols that may follow it, and what an item asks for is shifted.
-/

namespace ParserGenerator
namespace Table
namespace Rules

/-- A table that was built although nothing decides conflicts or names the
symbols that follow. -/
structure ConflictFree (rules : Rules) (table : Table) : Prop where
  /-- The rules are well formed. -/
  wellFormed : rules.WellFormed
  /-- No production says how a conflict is to be decided. -/
  undecided : rules.Undecided
  /-- No production says which symbols follow. -/
  plain : ∀ rule ∈ rules.grammar.productions, rule.lookaheadOverrides = []
  /-- The table was built without a resolver. -/
  built : (rules.construct none).result = .ok table

variable {rules : Rules} {table : Table} {symbols : List SymbolId}
  {item : Item} {symbol : SymbolId} {state : Nat} {action : Action}

/-- A candidate is a reason to choose an action. -/
theorem Offers.mem_actionSymbols
    (inside : state < rules.kernelGraph.kernels.size)
    (offers : (rules.candidatesIn state symbol).Offers rules action) :
    symbol ∈ rules.analysis.actionSymbols (rules.lookaheadClosure state) := by
  have found := Array.getElem?_eq_getElem inside
  refine mem_ascending.mpr (List.mem_flatMap.mpr ?_)
  cases offers with
  | shift offered =>
      obtain ⟨edge, notNonTerminal⟩ := (shift_candidatesIn found).mp offered
      obtain ⟨-, item, member, next⟩ := kernel_of_goto found edge
      obtain ⟨symbols, inClosure⟩ := (mem_lookaheadClosure found).mpr member
      exact ⟨(item, symbols), inClosure, by simp [next, notNonTerminal]⟩
  | reduce offered =>
      obtain ⟨item, ⟨symbols, inClosure, looks⟩, complete, -⟩ :=
        mem_reduces_candidatesIn.mp offered
      exact ⟨(item, symbols), inClosure, by simpa [complete] using looks⟩

/-- The action of a table after some symbols. -/
def actionAfter (rules : Rules) (table : Table) (symbols : List SymbolId)
    (symbol : SymbolId) : Option Action :=
  (rules.stateAfter symbols).bind (table.action · symbol)

namespace ConflictFree

/-- The only candidate is the action. -/
theorem action_of_offers
    (conflictFree : rules.ConflictFree table)
    (inside : state < rules.kernelGraph.kernels.size)
    (offers : (rules.candidatesIn state symbol).Offers rules action) :
    table.action state symbol = some action := by
  have asked := Offers.mem_actionSymbols inside offers
  obtain ⟨sameSize, correct⟩ := states_of_construct conflictFree.built
  have found := Array.getElem?_eq_getElem (sameSize ▸ inside)
  obtain ⟨choice, chosen⟩ := Analysis.exists_choice_of_chooseAll
    (correct state _ found).2.2 asked
  obtain rfl := conflictFree.undecided.choose_eq chosen offers
  exact (action_of_construct conflictFree.built).mpr ⟨inside, asked, chosen⟩

/-- A complete item is reduced on the symbols that may follow it. -/
theorem actionAfter_of_reaches
    (conflictFree : rules.ConflictFree table)
    (reaches : rules.Reaches symbols item symbol)
    (complete : rules.next? item = none) :
    rules.actionAfter table symbols symbol =
      some (rules.reduceAction item.production) := by
  obtain ⟨state, kernel, leads, found, -⟩ := reaches.viable.mem_closure
  have looks := reaches.looks conflictFree.wellFormed leads
  have offered := mem_reduces_candidatesIn.mpr ⟨item, looks, complete, rfl⟩
  have acts := conflictFree.action_of_offers
    (Array.getElem?_eq_some_iff.mp found).1 (.reduce offered)
  rw [actionAfter, leads]
  exact acts

/-- A symbol that an item asks for is shifted. -/
theorem actionAfter_of_viable
    (conflictFree : rules.ConflictFree table)
    (viable : rules.Viable symbols item)
    (next : rules.next? item = some symbol)
    (isTerminal : rules.grammar.isNonTerminal symbol = false) :
    ∃ target, rules.actionAfter table symbols symbol =
      some (.shift target) := by
  obtain ⟨state, kernel, leads, found, member⟩ := viable.mem_closure
  obtain ⟨target, edge⟩ := exists_goto found member next
  have offered := (shift_candidatesIn found).mpr ⟨edge, isTerminal⟩
  have acts := conflictFree.action_of_offers
    (Array.getElem?_eq_some_iff.mp found).1 (.shift offered)
  refine ⟨target, ?_⟩
  rw [actionAfter, leads]
  exact acts

/-- No symbols are named to follow others. -/
theorem override?_eq_none
    (conflictFree : rules.ConflictFree table)
    (item : Item)
    (symbol : SymbolId) :
    rules.override? item symbol = none := by
  unfold override?
  cases found : rules.grammar.productions[item.production]? with
  | none => rfl
  | some rule =>
      have plain := conflictFree.plain rule (Array.mem_of_getElem? found)
      simp [Production.lookaheadOverride?, plain]

end ConflictFree

/-! ## Where items come from -/

/-- The symbols before the dot are the last ones, and the item starts before
them. -/
theorem Viable.origin
    (viable : rules.Viable symbols item) :
    ∃ before, symbols = before ++ (rules.body item.production).take item.dot ∧
      rules.Viable before ⟨item.production, 0⟩ := by
  induction viable with
  | start => exact ⟨[], rfl, .start⟩
  | @advance symbols item symbol viable next inductionHypothesis =>
      obtain ⟨before, rfl, starts⟩ := inductionHypothesis
      have nextSymbol : (rules.body item.production)[item.dot]? =
        some symbol := next
      refine ⟨before, ?_, starts⟩
      simp [Item.advance, List.take_add_one, nextSymbol]
  | @predict symbols item production viable called =>
      exact ⟨symbols, by simp, .predict viable called⟩

theorem Reaches.origin
    (reaches : rules.Reaches symbols item symbol) :
    ∃ before, symbols = before ++ (rules.body item.production).take item.dot ∧
      rules.Reaches before ⟨item.production, 0⟩ symbol := by
  induction reaches with
  | start => exact ⟨[], rfl, .start⟩
  | @advance symbols item symbol following reaches next inductionHypothesis =>
      obtain ⟨before, rfl, starts⟩ := inductionHypothesis
      have nextSymbol : (rules.body item.production)[item.dot]? =
        some symbol := next
      refine ⟨before, ?_, starts⟩
      simp [Item.advance, List.take_add_one, nextSymbol]
  | @arises symbols item production following viable called arises =>
      exact ⟨symbols, by simp, .arises viable called arises⟩
  | @inherits symbols item production following reaches called inherits _ =>
      exact ⟨symbols, by simp, .inherits reaches called inherits⟩

/-- The start of a production other than that of the goal was called for. -/
theorem Viable.exists_caller
    {production : ProductionId}
    (viable : rules.Viable symbols ⟨production, 0⟩)
    (notAccept : production ≠ rules.accept) :
    ∃ caller, rules.Viable symbols caller ∧
      production ∈ rules.predicted caller := by
  generalize isItem : Item.mk production 0 = start at viable
  cases viable with
  | start => exact absurd (Item.mk.inj isItem).1 notAccept
  | advance => simp [Item.advance] at isItem
  | predict viable called =>
      obtain ⟨rfl, -⟩ := Item.mk.inj isItem
      exact ⟨_, viable, called⟩

/-- The head of a production that was called for can come next. -/
theorem Viable.exists_stateAfter_head
    {production : ProductionId}
    {head : SymbolId}
    (viable : rules.Viable symbols ⟨production, 0⟩)
    (notAccept : production ≠ rules.accept)
    (heads : rules.head? production = some head) :
    ∃ target, rules.stateAfter (symbols ++ [head]) = some target := by
  obtain ⟨caller, callerViable, called⟩ := viable.exists_caller notAccept
  obtain ⟨symbol, next, -, symbolHeads⟩ := mem_predicted.mp called
  obtain rfl := Option.some.inj (heads.symm.trans symbolHeads)
  obtain ⟨target, kernel, leads, -⟩ := (Viable.advance callerViable next).mem_closure
  exact ⟨target, leads⟩

theorem drop_advance
    {first : SymbolId}
    {rest : List SymbolId}
    (split : (rules.body item.production).drop item.dot = first :: rest) :
    (rules.body item.advance.production).drop item.advance.dot = rest := by
  rw [Item.advance, ← List.drop_drop, split]
  rfl

/-- The symbols after the dot complete an item. -/
theorem Reaches.exists_complete
    {rest : List SymbolId}
    (reaches : rules.Reaches symbols item symbol)
    (split : (rules.body item.production).drop item.dot = rest) :
    ∃ complete : Item, complete.production = item.production ∧
      rules.next? complete = none ∧
      rules.Reaches (symbols ++ rest) complete symbol := by
  induction rest generalizing symbols item with
  | nil =>
      rw [List.append_nil]
      exact ⟨item, rfl, List.getElem?_eq_none (List.drop_eq_nil_iff.mp split),
        reaches⟩
  | cons next rest inductionHypothesis =>
      have isNext : rules.next? item = some next :=
        next?_eq_some_iff.mpr ⟨rest, split⟩
      obtain ⟨complete, same, asksNothing, reachesEnd⟩ :=
        inductionHypothesis (reaches.advance isNext) (drop_advance split)
      rw [List.append_assoc] at reachesEnd
      exact ⟨complete, same, asksNothing, reachesEnd⟩

end Rules
end Table
end ParserGenerator
