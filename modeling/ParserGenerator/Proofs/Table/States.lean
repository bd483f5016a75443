import ParserGenerator.Proofs.Table.Choices
import ParserGenerator.Proofs.Table.Kernels
import ParserGenerator.Proofs.Table.Slots
import ParserGenerator.Table

/-!
# The states of a table

A table that is built has a state for each kernel. Its transitions are those
between the kernels, and its actions are the ones chosen among the candidates
that the closure of the kernel, with lookaheads, offers.
-/

namespace ParserGenerator
namespace Table

namespace Analysis

variable {analysis : Analysis} {resolver : Option Resolver}

/-- The symbols that may follow each non-terminal in a closure. -/
def following (analysis : Analysis) (kernel : List LookaheadItem) :
    Array SymbolSet :=
  let count := analysis.rules.grammar.symbols.size
  (settle
    (analysis.followingPass (analysis.rules.calledFor (kernel.map (·.1))))
    (count * (count + 1) + 1)
    (kernel.foldl analysis.contribute (Array.replicate count []))).value

theorem mem_closure {entry : LookaheadItem} {kernel : List LookaheadItem} :
    entry ∈ analysis.closure kernel ↔
      entry ∈ kernel ∨
        ∃ production ∈ analysis.rules.calledFor (kernel.map (·.1)),
          entry = (⟨production, 0⟩,
            analysis.followingHead (analysis.following kernel)
              production) := by
  simp [closure, following, eq_comm]

/-- The items of a closure do not depend on the lookaheads. -/
theorem mem_map_closure {item : Item} {kernel : List LookaheadItem} :
    item ∈ (analysis.closure kernel).map Prod.fst ↔
      item ∈ analysis.rules.closure (kernel.map Prod.fst) := by
  rw [Rules.mem_closure, List.mem_map]
  constructor
  · rintro ⟨entry, member, rfl⟩
    rcases mem_closure.mp member with inKernel | ⟨production, called, rfl⟩
    · exact .inl (List.mem_map.mpr ⟨entry, inKernel, rfl⟩)
    · exact .inr ⟨rfl, called⟩
  · rintro (inKernel | ⟨atStart, called⟩)
    · obtain ⟨entry, member, rfl⟩ := List.mem_map.mp inKernel
      exact ⟨entry, mem_closure.mpr (.inl member), rfl⟩
    · refine ⟨_, mem_closure.mpr (.inr ⟨item.production, called, rfl⟩), ?_⟩
      exact congrArg (Item.mk item.production) atStart.symm

/-! ## Actions of a state -/

/-- The actions on some symbols are those that are chosen. -/
theorem lookup_of_chooseAll
    {candidates : SymbolId → Candidates}
    {symbols : List SymbolId}
    {actions : List (SymbolId × Action)}
    (chosen : (analysis.chooseAll resolver candidates symbols).2 = .ok actions)
    (symbol : SymbolId)
    (action : Action) :
    actions.lookup symbol = some action ↔
      symbol ∈ symbols ∧
        (analysis.rules.choose resolver (candidates symbol)).2 =
          .ok (some action) := by
  induction symbols generalizing actions with
  | nil =>
      obtain rfl : actions = [] := by simpa [chooseAll, eq_comm] using chosen
      simp
  | cons first rest inductionHypothesis =>
      unfold chooseAll at chosen
      dsimp only at chosen
      split at chosen
      · simp at chosen
      · next choice isChoice =>
          cases others : (analysis.chooseAll resolver candidates rest).2 with
          | error error => simp [others, Except.map] at chosen
          | ok later =>
              obtain rfl : (choice.map (first, ·)).toList ++ later =
                  actions := by
                simpa [others, Except.map] using chosen
              have rest := inductionHypothesis others
              by_cases same : symbol = first
              · subst same
                cases choice with
                | none => simp [rest, isChoice]
                | some action => simp [isChoice]
              · have different := beq_false_of_ne same
                cases choice with
                | none => simp [rest, same]
                | some action => simp [List.lookup_cons, different, rest, same]

/-- Every symbol on which something applies has a choice. -/
theorem exists_choice_of_chooseAll
    {candidates : SymbolId → Candidates}
    {symbols : List SymbolId}
    {actions : List (SymbolId × Action)}
    (chosen : (analysis.chooseAll resolver candidates symbols).2 = .ok actions)
    {symbol : SymbolId}
    (member : symbol ∈ symbols) :
    ∃ choice,
      (analysis.rules.choose resolver (candidates symbol)).2 = .ok choice := by
  induction symbols generalizing actions with
  | nil => simp at member
  | cons first rest inductionHypothesis =>
      unfold chooseAll at chosen
      dsimp only at chosen
      split at chosen
      · simp at chosen
      · next choice isChoice =>
          cases others : (analysis.chooseAll resolver candidates rest).2 with
          | error error => simp [others, Except.map] at chosen
          | ok later =>
              rcases List.mem_cons.mp member with rfl | inRest
              · exact ⟨choice, isChoice⟩
              · exact inductionHypothesis others inRest

theorem parts_of_parserState
    {state : Nat}
    {kernel : List LookaheadItem}
    {gotos : List (SymbolId × Nat)}
    {entry : ParserState}
    (built : (analysis.parserState resolver state kernel gotos).2 =
      .ok entry) :
    entry.kernel = kernel ∧ entry.gotos = gotos ∧
      (analysis.chooseAll resolver
        (analysis.candidates state gotos (analysis.closure kernel))
        (analysis.actionSymbols (analysis.closure kernel))).2 =
          .ok entry.actions := by
  unfold parserState at built
  dsimp only at built
  cases chosen : (analysis.chooseAll resolver
      (analysis.candidates state gotos (analysis.closure kernel))
      (analysis.actionSymbols (analysis.closure kernel))).2 with
  | error error => simp [chosen, Except.map] at built
  | ok actions =>
      rw [chosen] at built
      obtain rfl := Except.ok.inj built
      exact ⟨rfl, rfl, rfl⟩

/-- The states are those of the kernels, in order. -/
theorem getElem?_parserStates
    {entries : List (List LookaheadItem × List (SymbolId × Nat))}
    {states : List ParserState}
    {start : Nat}
    (built : (analysis.parserStates resolver start entries).2 = .ok states) :
    states.length = entries.length ∧
      ∀ (index : Nat) (state : ParserState), states[index]? = some state →
        ∃ kernel gotos, entries[index]? = some (kernel, gotos) ∧
          (analysis.parserState resolver (start + index) kernel gotos).2 =
            .ok state := by
  induction entries generalizing states start with
  | nil =>
      obtain rfl : states = [] := by
        simpa [parserStates, eq_comm] using built
      simp
  | cons entry entries inductionHypothesis =>
      obtain ⟨kernel, gotos⟩ := entry
      unfold parserStates at built
      dsimp only at built
      split at built
      · simp at built
      · next first isFirst =>
          cases others :
              (analysis.parserStates resolver (start + 1) entries).2 with
          | error error => simp [others, Except.map] at built
          | ok later =>
              obtain rfl : first :: later = states := by
                simpa [others, Except.map] using built
              obtain ⟨sameLength, correct⟩ := inductionHypothesis others
              refine ⟨by simp [sameLength], fun index state found => ?_⟩
              cases index with
              | zero =>
                  obtain rfl : first = state := by simpa using found
                  exact ⟨kernel, gotos, rfl, isFirst⟩
              | succ index =>
                  obtain ⟨otherKernel, otherGotos, isEntry, isState⟩ :=
                    correct index state (by simpa using found)
                  refine ⟨otherKernel, otherGotos, by simpa using isEntry, ?_⟩
                  rwa [Nat.add_assoc, Nat.add_comm 1] at isState

end Analysis

namespace Rules

variable {rules : Rules} {resolver : Option Resolver} {table : Table}

/-- A table of a grammar is the table of its rules. -/
theorem construct_of_ok
    {grammar : Grammar}
    {goal : SymbolId}
    {resolver : Option Table.Resolver}
    {table : Table}
    (built : (Table.construct grammar goal resolver).result = .ok table) :
    ((Rules.mk grammar goal).construct resolver).result = .ok table := by
  unfold Table.construct at built
  dsimp only at built
  split at built
  · simp at built
  · split at built
    · simp at built
    · exact built

/-- A table is built only for a goal that is a non-terminal. -/
theorem goal_of_construct
    {grammar : Grammar}
    {goal : SymbolId}
    {resolver : Option Table.Resolver}
    {table : Table}
    (built : (Table.construct grammar goal resolver).result = .ok table) :
    grammar.isNonTerminal goal = true := by
  unfold Table.construct at built
  dsimp only at built
  split at built
  · simp at built
  · next isNonTerminal => simpa using isNonTerminal

/-- The rules with their first sets. -/
def analysis (rules : Rules) : Analysis :=
  ⟨rules, FirstSets.ofGrammar rules.grammar⟩

@[simp] theorem rules_analysis (rules : Rules) :
    rules.analysis.rules = rules := rfl

theorem mem_map_closure {item : Item} {kernel : List LookaheadItem} :
    item ∈ (rules.analysis.closure kernel).map Prod.fst ↔
      item ∈ rules.closure (kernel.map Prod.fst) :=
  @Analysis.mem_map_closure rules.analysis item kernel

/-- The lookaheads of all kernel items. -/
def slotSets (rules : Rules) : SlotSets :=
  (rules.analysis.lookaheads rules.kernelGraph).value

/-- The kernel of a state with lookaheads. -/
def lookaheadKernel (rules : Rules) (state : Nat) : List LookaheadItem :=
  (rules.kernelGraph.kernels[state]?.getD []).zip
    (rules.slotSets[state]?.getD #[]).toList

/-- The closure of a state with lookaheads. -/
def lookaheadClosure (rules : Rules) (state : Nat) : List LookaheadItem :=
  rules.analysis.closure (rules.lookaheadKernel state)

/-- All that competes on a symbol in a state. -/
def candidatesIn (rules : Rules) (state : Nat) (symbol : SymbolId) :
    Candidates :=
  rules.analysis.candidates state
    (rules.kernelGraph.gotos[state]?.getD []) (rules.lookaheadClosure state)
    symbol

theorem shaped_slotSets (rules : Rules) :
    SlotSets.Shaped rules.kernelGraph rules.slotSets :=
  rules.analysis.shaped_lookaheads rules.kernelGraph

/-- The kernel with lookaheads has the items of the kernel. -/
theorem map_lookaheadKernel
    {state : Nat}
    {kernel : List Item}
    (found : rules.kernelGraph.kernels[state]? = some kernel) :
    (rules.lookaheadKernel state).map Prod.fst = kernel := by
  have sizes := congrArg (·[state]?) rules.shaped_slotSets
  simp only [Array.getElem?_map, found, Option.map_some,
    Option.map_eq_some_iff] at sizes
  obtain ⟨row, isRow, sameLength⟩ := sizes
  rw [lookaheadKernel, found, isRow]
  refine List.map_fst_zip ?_
  simpa using Nat.le_of_eq sameLength.symm

theorem mem_lookaheadKernel
    {state : Nat}
    {item : Item}
    {symbols : SymbolSet}
    (member : (item, symbols) ∈ rules.lookaheadKernel state) :
    ∃ index, rules.kernelGraph.item? ⟨state, index⟩ = some item ∧
      rules.slotSets.get ⟨state, index⟩ = symbols := by
  unfold lookaheadKernel at member
  obtain ⟨index, found⟩ := List.mem_iff_getElem?.mp member
  obtain ⟨isItem, isRow⟩ := List.getElem?_zip_eq_some.mp found
  refine ⟨index, ?_, ?_⟩
  · cases kernels : rules.kernelGraph.kernels[state]? with
    | none => simp [kernels] at isItem
    | some kernel => simpa [KernelGraph.item?, kernels] using isItem
  · cases rows : rules.slotSets[state]? with
    | none => simp [rows] at isRow
    | some row =>
        have atIndex : row[index]? = some symbols := by
          simpa [rows] using isRow
        simp [SlotSets.get, rows, atIndex]

theorem exists_mem_lookaheadKernel
    {state index : Nat}
    {item : Item}
    (isItem : rules.kernelGraph.item? ⟨state, index⟩ = some item) :
    (item, rules.slotSets.get ⟨state, index⟩) ∈
      rules.lookaheadKernel state := by
  have isRow : (rules.slotSets.row? ⟨state, index⟩).isSome := by
    rw [SlotSets.isSome_row?_iff rules.shaped_slotSets, isItem]
    rfl
  obtain ⟨kernel, isKernel, atIndex⟩ := Option.bind_eq_some_iff.mp isItem
  obtain ⟨symbols, found⟩ := Option.isSome_iff_exists.mp isRow
  obtain ⟨row, rowFound, rowAtIndex⟩ := Option.bind_eq_some_iff.mp found
  refine List.mem_iff_getElem?.mpr ⟨index, List.getElem?_zip_eq_some.mpr ?_⟩
  refine ⟨by simpa [isKernel] using atIndex, ?_⟩
  simp [SlotSets.get, rowFound, rowAtIndex]

theorem length_annotated (rules : Rules) :
    (Analysis.annotated rules.kernelGraph rules.slotSets).length =
      rules.kernelGraph.kernels.size := by
  have sameSize : rules.slotSets.size = rules.kernelGraph.kernels.size := by
    simpa using congrArg Array.size rules.shaped_slotSets
  simp [Analysis.annotated, sameSize, rules.size_gotos_kernelGraph]

theorem annotated_eq
    {state : Nat}
    {kernel : List LookaheadItem}
    {gotos : List (SymbolId × Nat)}
    (found : (Analysis.annotated rules.kernelGraph rules.slotSets)[state]? =
      some (kernel, gotos)) :
    kernel = rules.lookaheadKernel state ∧
      rules.kernelGraph.gotos[state]? = some gotos := by
  simp only [Analysis.annotated, List.getElem?_map, Array.getElem?_toList,
    Option.map_eq_some_iff] at found
  obtain ⟨⟨⟨items, row⟩, edges⟩, isEntry, same⟩ := found
  obtain ⟨rfl, rfl⟩ := Prod.mk.inj same
  obtain ⟨inner, isEdges⟩ := Array.getElem?_zip_eq_some.mp isEntry
  obtain ⟨isItems, isRow⟩ := Array.getElem?_zip_eq_some.mp inner
  exact ⟨by simp [lookaheadKernel, isItems, isRow], isEdges⟩

/-- The states of a table that was built are made of the kernels and their
transitions. -/
theorem parserState_of_construct
    (built : (rules.construct resolver).result = .ok table) :
    table.states.size = rules.kernelGraph.kernels.size ∧
      ∀ (state : Nat) (entry : ParserState),
        table.states[state]? = some entry → ∃ gotos,
          rules.kernelGraph.gotos[state]? = some gotos ∧
          (rules.analysis.parserState resolver state
            (rules.lookaheadKernel state) gotos).2 = .ok entry := by
  unfold construct at built
  dsimp only at built
  split at built
  · simp at built
  · next states isStates =>
      obtain rfl : Table.mk states.toArray rules.goal rules.accept = table := by
        simpa using built
      obtain ⟨sameLength, correct⟩ :=
        Analysis.getElem?_parserStates isStates
      refine ⟨sameLength.trans rules.length_annotated,
        fun state entry found => ?_⟩
      obtain ⟨kernel, gotos, isEntry, isState⟩ :=
        correct state entry (by simpa using found)
      obtain ⟨isKernel, isGotos⟩ := annotated_eq isEntry
      rw [Nat.zero_add, isKernel] at isState
      exact ⟨gotos, isGotos, isState⟩

/-- What is known about the states of a table that was built. -/
theorem states_of_construct
    (built : (rules.construct resolver).result = .ok table) :
    table.states.size = rules.kernelGraph.kernels.size ∧
      ∀ (state : Nat) (entry : ParserState),
        table.states[state]? = some entry →
          entry.kernel = rules.lookaheadKernel state ∧
          rules.kernelGraph.gotos[state]? = some entry.gotos ∧
          (rules.analysis.chooseAll resolver (rules.candidatesIn state)
            (rules.analysis.actionSymbols
              (rules.lookaheadClosure state))).2 = .ok entry.actions := by
  obtain ⟨sameSize, made⟩ := parserState_of_construct built
  refine ⟨sameSize, fun state entry found => ?_⟩
  obtain ⟨gotos, isGotos, isState⟩ := made state entry found
  have candidates : rules.candidatesIn state = rules.analysis.candidates
      state gotos (rules.lookaheadClosure state) := by
    funext symbol
    rw [candidatesIn, isGotos, Option.getD_some]
  obtain ⟨sameKernel, rfl, chosen⟩ := Analysis.parts_of_parserState isState
  exact ⟨sameKernel, isGotos, candidates ▸ chosen⟩

/-- The transitions of a table are those between the kernels. -/
theorem goto_of_construct
    (built : (rules.construct resolver).result = .ok table)
    (state : Nat)
    (symbol : SymbolId) :
    table.goto state symbol = rules.kernelGraph.goto state symbol := by
  obtain ⟨sameSize, correct⟩ := states_of_construct built
  unfold Table.goto KernelGraph.goto
  cases found : table.states[state]? with
  | none =>
      have outside : rules.kernelGraph.gotos.size ≤ state := by
        rw [rules.size_gotos_kernelGraph, ← sameSize]
        exact Array.getElem?_eq_none_iff.mp found
      simp [outside]
  | some entry => simp [(correct state entry found).2.1]

/-- The actions of a table are those that are chosen among the candidates. -/
theorem action_of_construct
    (built : (rules.construct resolver).result = .ok table)
    {state : Nat}
    {symbol : SymbolId}
    {action : Action} :
    table.action state symbol = some action ↔
      state < rules.kernelGraph.kernels.size ∧
        symbol ∈ rules.analysis.actionSymbols
          (rules.lookaheadClosure state) ∧
        (rules.choose resolver (rules.candidatesIn state symbol)).2 =
          .ok (some action) := by
  obtain ⟨sameSize, correct⟩ := states_of_construct built
  unfold Table.action
  cases found : table.states[state]? with
  | none =>
      have outside := Array.getElem?_eq_none_iff.mp found
      rw [← sameSize]
      simp only [Option.bind_none, reduceCtorEq, false_iff, not_and]
      omega
  | some entry =>
      have inside := (Array.getElem?_eq_some_iff.mp found).1
      have chosen := (correct state entry found).2.2
      rw [Option.bind_some, Analysis.lookup_of_chooseAll chosen]
      simp [← sameSize, inside, analysis]

/-! ## Candidates -/

variable {state : Nat} {symbol : SymbolId} {kernel : List Item}

/-- A symbol is a lookahead of an item in a state. -/
def Looks (rules : Rules) (state : Nat) (item : Item) (symbol : SymbolId) :
    Prop :=
  ∃ symbols, (item, symbols) ∈ rules.lookaheadClosure state ∧
    symbol ∈ symbols

/-- The items of a closure with lookaheads are those of the closure. -/
theorem mem_lookaheadClosure
    {item : Item}
    (found : rules.kernelGraph.kernels[state]? = some kernel) :
    (∃ symbols, (item, symbols) ∈ rules.lookaheadClosure state) ↔
      item ∈ rules.closure kernel := by
  have sameItems : item ∈ (rules.lookaheadClosure state).map Prod.fst ↔
      item ∈ rules.closure ((rules.lookaheadKernel state).map Prod.fst) :=
    mem_map_closure
  rw [map_lookaheadKernel found, List.mem_map] at sameItems
  rw [← sameItems]
  simp

theorem Looks.mem_closure
    {item : Item}
    (looks : rules.Looks state item symbol)
    (found : rules.kernelGraph.kernels[state]? = some kernel) :
    item ∈ rules.closure kernel := by
  obtain ⟨symbols, member, -⟩ := looks
  exact (mem_lookaheadClosure found).mp ⟨symbols, member⟩

theorem mem_shiftItems {item : Item} :
    item ∈ (rules.candidatesIn state symbol).shiftItems ↔
      (∃ symbols, (item, symbols) ∈ rules.lookaheadClosure state) ∧
        rules.next? item = some symbol ∧
        rules.grammar.isNonTerminal symbol = false := by
  simp [candidatesIn, Analysis.candidates]

/-- A shift is offered where there is a transition over a symbol that is not a
non-terminal. -/
theorem shift_candidatesIn
    {target : Nat}
    (found : rules.kernelGraph.kernels[state]? = some kernel) :
    (rules.candidatesIn state symbol).shift = some target ↔
      rules.kernelGraph.goto state symbol = some target ∧
        rules.grammar.isNonTerminal symbol = false := by
  have asGoto : (rules.kernelGraph.gotos[state]?.getD []).lookup symbol =
      rules.kernelGraph.goto state symbol := by
    unfold KernelGraph.goto
    generalize rules.kernelGraph.gotos[state]? = edges?
    cases edges? with
    | none => rfl
    | some edges => rfl
  have asLookup : (rules.candidatesIn state symbol).shift =
      if (rules.candidatesIn state symbol).shiftItems.isEmpty then
        none
      else
        rules.kernelGraph.goto state symbol := by
    rw [← asGoto, candidatesIn, Analysis.candidates]
  rw [asLookup, Option.ite_none_left_eq_some, and_comm]
  refine and_congr_right fun edge => ?_
  rw [List.isEmpty_iff]
  constructor
  · intro someItem
    obtain ⟨item, member⟩ := List.exists_mem_of_ne_nil _ someItem
    exact (mem_shiftItems.mp member).2.2
  · intro notNonTerminal
    obtain ⟨-, item, member, next⟩ := kernel_of_goto found edge
    exact List.ne_nil_of_mem (mem_shiftItems.mpr
      ⟨(mem_lookaheadClosure found).mpr member, next, notNonTerminal⟩)

/-- The productions with a complete item that the symbol may follow can be
reduced. -/
theorem mem_reduces_candidatesIn {production : ProductionId} :
    production ∈ (rules.candidatesIn state symbol).reduces ↔
      ∃ item, rules.Looks state item symbol ∧ rules.next? item = none ∧
        item.production = production := by
  simp only [candidatesIn, Analysis.candidates, mem_ascending, List.mem_map,
    List.mem_filter, Bool.and_eq_true, Option.isNone_iff_eq_none,
    List.contains_iff_mem, rules_analysis]
  constructor
  · rintro ⟨⟨item, symbols⟩, ⟨member, complete, looks⟩, rfl⟩
    exact ⟨item, ⟨symbols, member, looks⟩, complete, rfl⟩
  · rintro ⟨item, ⟨symbols, member, looks⟩, complete, rfl⟩
    exact ⟨(item, symbols), ⟨member, complete, looks⟩, rfl⟩

end Rules
end Table
end ParserGenerator
