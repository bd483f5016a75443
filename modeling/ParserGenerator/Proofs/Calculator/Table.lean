import ParserGenerator.Proofs.Calculator.Loading
import ParserGenerator.Proofs.Fixpoint

/-!
# The table of the calculator

The table of the grammar of the calculator, with the conflicts between its
operators decided by their precedence.
-/

namespace ParserGenerator

open Table (Rules Item Action Analysis FirstSets KernelGraph SlotSets)

/-- First sets that a few passes lead to. -/
theorem Table.FirstSets.ofGrammar_eq_of_iterate
    {grammar : Grammar}
    {count : Nat}
    {sets : FirstSets}
    (reaches : (pass grammar)^[count] (initial grammar) = sets)
    (fixed : pass grammar sets = sets)
    (enough : count ≤ grammar.symbols.size * (grammar.symbols.size + 1) + 1) :
    ofGrammar grammar = sets :=
  settle_value_of_iterate reaches fixed enough

namespace Table

/-- A table is built if the parts of its construction are known. -/
theorem Rules.construct_of_parserStates
    {rules : Rules}
    {resolver : Option Resolver}
    {graph : KernelGraph}
    {firsts : FirstSets}
    {sets : SlotSets}
    {states : List ParserState}
    (isFirsts : FirstSets.ofGrammar rules.grammar = firsts)
    (isGraph : rules.kernelGraph = graph)
    (isSets : (Analysis.lookaheads ⟨rules, firsts⟩ graph).value = sets)
    (isStates : (Analysis.parserStates ⟨rules, firsts⟩ resolver 0
      (Analysis.annotated graph sets)).2 = .ok states) :
    (rules.construct resolver).result =
      .ok ⟨states.toArray, rules.goal, rules.accept⟩ := by
  subst isFirsts isGraph isSets
  unfold Rules.construct
  dsimp only
  rw [isStates]

theorem construct_of_productive
    {grammar : Grammar}
    {goal : SymbolId}
    (resolver : Option Resolver)
    (nonTerminal : grammar.isNonTerminal goal = true)
    (productive : Rules.unproductive? ⟨grammar, goal⟩ = none) :
    construct grammar goal resolver =
      Rules.construct ⟨grammar, goal⟩ resolver := by
  unfold construct
  dsimp only
  rw [nonTerminal, productive]
  rfl

end Table

namespace Calculator

/-- The grammar of the calculator with its goal. -/
def rules : Rules := ⟨grammar, 15⟩

/-- Sets in which terminals and markers start with themselves. -/
def firstsWith (first : List SymbolSet) (nullable : List Bool) : FirstSets :=
  ⟨((List.range 15).map ([·]) ++ first).toArray,
    (List.replicate 15 false ++ nullable).toArray⟩

/-- The first sets of the grammar. -/
def firsts : FirstSets :=
  firstsWith
    [[3, 4, 6, 10, 12], [3, 4, 6, 10, 12], [3, 4, 6, 10], [3, 4, 6, 10]]
    [true, true, true, false]

theorem ofGrammar_rules : FirstSets.ofGrammar rules.grammar = firsts := by
  have initial : FirstSets.initial grammar =
      firstsWith [[], [], [], []] [false, false, false, false] := by
    decide +kernel
  have first : FirstSets.pass grammar
      (firstsWith [[], [], [], []] [false, false, false, false]) =
      firstsWith [[], [], [4], [3, 4, 6, 10]] [false, false, true, false] := by
    decide +kernel
  have second : FirstSets.pass grammar
      (firstsWith [[], [], [4], [3, 4, 6, 10]] [false, false, true, false]) =
      firstsWith [[], [4], [3, 4, 6, 10], [3, 4, 6, 10]]
        [false, true, true, false] := by
    decide +kernel
  have third : FirstSets.pass grammar
      (firstsWith [[], [4], [3, 4, 6, 10], [3, 4, 6, 10]]
        [false, true, true, false]) =
      firstsWith [[4], [3, 4, 6, 10, 12], [3, 4, 6, 10], [3, 4, 6, 10]]
        [true, true, true, false] := by
    decide +kernel
  have fourth : FirstSets.pass grammar
      (firstsWith [[4], [3, 4, 6, 10, 12], [3, 4, 6, 10], [3, 4, 6, 10]]
        [true, true, true, false]) = firsts := by
    decide +kernel
  have fixed : FirstSets.pass grammar firsts = firsts := by
    decide +kernel
  have reaches : (FirstSets.pass grammar)^[4] (FirstSets.initial grammar) =
      firsts := by
    rw [initial, Function.iterate_succ_apply, first,
      Function.iterate_succ_apply, second, Function.iterate_succ_apply, third,
      Function.iterate_one, fourth]
  exact FirstSets.ofGrammar_eq_of_iterate reaches fixed (by decide)

/-! ## States -/

/-- The items before the operators of expressions. -/
def operatorItems : List Item := [⟨8, 1⟩, ⟨9, 1⟩, ⟨10, 1⟩, ⟨11, 1⟩]

/-- The kernels of the states. -/
def kernels : Array (List Item) :=
  #[[⟨14, 0⟩], [⟨6, 1⟩], [⟨5, 1⟩, ⟨7, 1⟩], [⟨12, 1⟩], [⟨13, 1⟩], [⟨14, 1⟩],
    [⟨0, 1⟩, ⟨1, 1⟩], [⟨2, 1⟩], ⟨4, 1⟩ :: operatorItems, [⟨5, 2⟩], [⟨7, 1⟩],
    operatorItems ++ [⟨12, 2⟩], operatorItems ++ [⟨13, 2⟩], [⟨1, 2⟩],
    [⟨8, 2⟩], [⟨9, 2⟩], [⟨10, 2⟩], [⟨11, 2⟩], ⟨5, 3⟩ :: operatorItems,
    [⟨13, 3⟩], [⟨1, 3⟩],
    [⟨8, 1⟩, ⟨8, 3⟩, ⟨9, 1⟩, ⟨10, 1⟩, ⟨11, 1⟩],
    [⟨8, 1⟩, ⟨9, 1⟩, ⟨9, 3⟩, ⟨10, 1⟩, ⟨11, 1⟩],
    [⟨8, 1⟩, ⟨9, 1⟩, ⟨10, 1⟩, ⟨10, 3⟩, ⟨11, 1⟩],
    operatorItems ++ [⟨11, 3⟩]]

/-- The transitions over operators. -/
def operatorEdges : List (SymbolId × Nat) :=
  [(5, 14), (6, 15), (7, 16), (8, 17)]

/-- The transitions where an expression starts and ends in the given state. -/
def expressionEdges (target : Nat) : List (SymbolId × Nat) :=
  [(3, 1), (4, 10), (6, 3), (10, 4), (18, target)]

/-- The transitions of the states. -/
def gotos : Array (List (SymbolId × Nat)) :=
  #[[(3, 1), (4, 2), (6, 3), (10, 4), (15, 5), (16, 6), (17, 7), (18, 8)],
    [], [(9, 9)], expressionEdges 11, expressionEdges 12, [], [(12, 13)], [],
    operatorEdges, expressionEdges 18, [], operatorEdges,
    operatorEdges ++ [(11, 19)],
    [(3, 1), (4, 2), (6, 3), (10, 4), (17, 20), (18, 8)],
    expressionEdges 21, expressionEdges 22, expressionEdges 23,
    expressionEdges 24, operatorEdges, [], [], operatorEdges, operatorEdges,
    operatorEdges, operatorEdges]

/-- The symbols after a statement. -/
def afterStatement : SymbolSet := [0, 12]

/-- The symbols after an expression that is not between parentheses. -/
def afterTopmost : SymbolSet := [0, 5, 6, 7, 8, 12]

/-- The symbols after an expression. -/
def afterExpression : SymbolSet := [0, 5, 6, 7, 8, 11, 12]

/-- The lookaheads of the kernel items. -/
def lookaheads : SlotSets :=
  #[#[[0]], #[afterExpression], #[afterStatement, afterTopmost],
    #[afterExpression], #[afterExpression], #[[0]], #[[0], afterStatement],
    #[afterStatement],
    #[afterStatement, afterTopmost, afterTopmost, afterTopmost, afterTopmost],
    #[afterStatement], #[afterExpression],
    Array.replicate 5 afterExpression,
    #[[5, 6, 7, 8, 11], [5, 6, 7, 8, 11], [5, 6, 7, 8, 11], [5, 6, 7, 8, 11],
      afterExpression],
    #[afterStatement], #[afterExpression], #[afterExpression],
    #[afterExpression], #[afterExpression],
    #[afterStatement, afterTopmost, afterTopmost, afterTopmost, afterTopmost],
    #[afterExpression], #[afterStatement],
    Array.replicate 5 afterExpression, Array.replicate 5 afterExpression,
    Array.replicate 5 afterExpression, Array.replicate 5 afterExpression]

theorem kernelGraph_rules : rules.kernelGraph = ⟨kernels, gotos⟩ := by
  have isKernels : rules.kernelGraph.kernels = kernels := by
    decide +kernel
  have isGotos : rules.kernelGraph.gotos = gotos := by
    decide +kernel
  rw [← isKernels, ← isGotos]

theorem lookaheads_rules :
    (Analysis.lookaheads ⟨rules, firsts⟩ ⟨kernels, gotos⟩).value =
      lookaheads := by
  decide +kernel

/-- The actions on operators. -/
def operatorActions : List (SymbolId × Action) :=
  [(5, .shift 14), (6, .shift 15), (7, .shift 16), (8, .shift 17)]

/-- The actions where an expression starts. -/
def expressionActions : List (SymbolId × Action) :=
  [(3, .shift 1), (4, .shift 10), (6, .shift 3), (10, .shift 4)]

/-- The actions where a statement starts. -/
def statementActions : List (SymbolId × Action) :=
  [(0, .reduce 3), (3, .shift 1), (4, .shift 2), (6, .shift 3),
    (10, .shift 4), (12, .reduce 3)]

/-- A reduction on each of the given symbols. -/
def reductionsOn (symbols : SymbolSet) (production : ProductionId) :
    List (SymbolId × Action) :=
  symbols.map (·, .reduce production)

/-- The actions where a statement may end with an expression. -/
def endActions (production : ProductionId) : List (SymbolId × Action) :=
  (0, .reduce production) :: operatorActions ++ [(12, .reduce production)]

/-- The actions after the right side of a sum or difference: a product binds
more tightly. -/
def sumActions (production : ProductionId) : List (SymbolId × Action) :=
  [(0, .reduce production), (5, .reduce production), (6, .reduce production),
    (7, .shift 16), (8, .shift 17), (11, .reduce production),
    (12, .reduce production)]

/-- The actions of the states. -/
def actionRows : List (List (SymbolId × Action)) :=
  [statementActions, reductionsOn afterExpression 6,
    [(0, .reduce 7), (5, .reduce 7), (6, .reduce 7), (7, .reduce 7),
      (8, .reduce 7), (9, .shift 9), (12, .reduce 7)],
    expressionActions, expressionActions, [(0, .accept)],
    [(0, .reduce 0), (12, .shift 13)], reductionsOn afterStatement 2,
    endActions 4, expressionActions, reductionsOn afterExpression 7,
    reductionsOn afterExpression 12, operatorActions ++ [(11, .shift 19)],
    statementActions, expressionActions, expressionActions, expressionActions,
    expressionActions, endActions 5, reductionsOn afterExpression 13,
    reductionsOn afterStatement 1, sumActions 8, sumActions 9,
    reductionsOn afterExpression 10, reductionsOn afterExpression 11]

theorem parserStates_rules :
    (Analysis.parserStates ⟨rules, firsts⟩ (some precedence) 0
      (Analysis.annotated ⟨kernels, gotos⟩ lookaheads)).2.toOption.map
        (fun states => (states.map Table.ParserState.gotos,
          states.map Table.ParserState.actions)) =
      some (gotos.toList, actionRows) := by
  decide +kernel

/-- The action in a state on a symbol. -/
def action (state : Nat) (symbol : SymbolId) : Option Action :=
  actionRows[state]?.bind (·.lookup symbol)

/-- The transition from a state over a symbol. -/
def goto (state : Nat) (symbol : SymbolId) : Option Nat :=
  gotos[state]?.bind (·.lookup symbol)

/-- A table that was built for the calculator has the actions and transitions
of its rows. -/
structure Tabulates (table : Table) : Prop where
  /-- The table was built. -/
  built : (rules.construct (some precedence)).result = .ok table
  /-- The actions are those of the rows. -/
  action_eq : ∀ state symbol, table.action state symbol = action state symbol
  /-- The transitions are those of the rows. -/
  goto_eq : ∀ state symbol, table.goto state symbol = goto state symbol

theorem exists_tabulates :
    ∃ table, (Table.construct grammar 15 (some precedence)).result =
      .ok table ∧ Tabulates table := by
  obtain ⟨states, isStates, rows⟩ :=
    Option.map_eq_some_iff.mp parserStates_rules
  obtain ⟨isGotos, isActions⟩ := Prod.mk.inj rows
  have built := Rules.construct_of_parserStates ofGrammar_rules
    kernelGraph_rules lookaheads_rules (Grammar.eq_ok_of_toOption isStates)
  have productive : Rules.unproductive? ⟨grammar, 15⟩ = none := by
    decide +kernel
  refine ⟨_, ?_, built, fun state symbol => ?_, fun state symbol => ?_⟩
  · rw [Table.construct_of_productive _ rfl productive]
    exact built
  · rw [action, ← isActions, List.getElem?_map, Option.bind_map, Table.action,
      List.getElem?_toArray]
    rfl
  · rw [goto, ← Array.getElem?_toList, ← isGotos, List.getElem?_map,
      Option.bind_map, Table.goto, List.getElem?_toArray]
    rfl

end Calculator
end ParserGenerator
