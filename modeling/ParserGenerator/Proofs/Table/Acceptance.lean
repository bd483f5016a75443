import ParserGenerator.Proofs.Table.Termination

/-!
# What a table without conflicts accepts

The steps of a table on stacks of symbols are determined. They lead from the
empty stack to the goal exactly on the words that the goal yields.
-/

namespace ParserGenerator
namespace Table
namespace Rules

variable {rules : Rules} {table : Table} {stack input : List SymbolId}
  {symbol : SymbolId}

/-! ## Mentioned symbols -/

/-- A symbol occurs in the body of a production. -/
def Mentions (rules : Rules) (symbol : SymbolId) : Prop :=
  ∃ rule ∈ rules.grammar.productions, symbol ∈ rule.body

theorem mentions_of_mem_body
    {production : ProductionId}
    (notAccept : production ≠ rules.accept)
    (member : symbol ∈ rules.body production) :
    rules.Mentions symbol := by
  rw [body, if_neg notAccept] at member
  cases found : rules.grammar.productions[production]? with
  | none => simp [found] at member
  | some rule =>
      rw [found] at member
      exact ⟨rule, Array.mem_of_getElem? found, member⟩

/-- A symbol after the one after the dot is mentioned. -/
theorem mentions_of_mem_rest
    {item : Item}
    {called : SymbolId}
    {rest : List SymbolId}
    (split : (rules.body item.production).drop item.dot = called :: rest)
    (member : symbol ∈ rest) :
    rules.Mentions symbol := by
  have inDrop : symbol ∈ (rules.body item.production).drop item.dot := by
    rw [split]
    exact List.mem_cons_of_mem called member
  refine mentions_of_mem_body (fun isAccept => ?_) (List.mem_of_mem_drop inDrop)
  have lengths := congrArg List.length split
  rw [isAccept, body_accept, List.length_drop, List.length_singleton,
    List.length_cons] at lengths
  have positive := List.length_pos_of_mem member
  omega

/-- What symbols start with is one of them or is mentioned. -/
theorem mentions_of_starts
    {symbols : List SymbolId}
    (starts : rules.grammar.Starts symbols symbol) :
    symbol ∈ symbols ∨ rules.Mentions symbol := by
  induction starts with
  | here _ => exact .inl List.mem_cons_self
  | @inside rule _ _ member _ inductionHypothesis =>
      exact .inr (inductionHypothesis.elim
        (fun inBody => ⟨rule, member, inBody⟩) id)
  | later _ _ inductionHypothesis =>
      exact inductionHypothesis.imp_left (List.mem_cons_of_mem _)

namespace ConflictFree

/-- What follows an item is mentioned or is the end of the source. -/
theorem mentions_of_reaches
    (conflictFree : rules.ConflictFree table)
    {item : Item}
    (reaches : rules.Reaches stack item symbol) :
    symbol = Grammar.endSymbol ∨ rules.Mentions symbol := by
  induction reaches with
  | start => exact .inl rfl
  | advance _ _ inductionHypothesis => exact inductionHypothesis
  | inherits _ _ _ inductionHypothesis => exact inductionHypothesis
  | @arises stack item production symbol viable called arises =>
      obtain ⟨head, next, -, heads⟩ := mem_predicted.mp called
      obtain ⟨rest, split⟩ := next?_eq_some_iff.mp next
      have starts := (arises_iff split).mp arises
      rw [conflictFree.override?_eq_none] at starts
      exact .inr ((mentions_of_starts starts).elim
        (mentions_of_mem_rest split) id)

/-- A shift leads to a state, over a symbol that is mentioned and is not a
non-terminal. -/
theorem shift_of_actionAfter
    (conflictFree : rules.ConflictFree table)
    {target : Nat}
    (acts : rules.actionAfter table stack symbol = some (.shift target)) :
    rules.stateAfter (stack ++ [symbol]) = some target ∧
      rules.grammar.isNonTerminal symbol = false ∧ rules.Mentions symbol := by
  obtain ⟨state, leads, stateActs⟩ := Option.bind_eq_some_iff.mp acts
  obtain ⟨edge, isTerminal⟩ :=
    goto_of_action_shift conflictFree.built stateActs
  rw [goto_of_construct conflictFree.built] at edge
  obtain ⟨kernel, found⟩ := exists_kernel_of_stateAfter leads
  obtain ⟨-, item, -, next⟩ := kernel_of_goto found edge
  have inBody : symbol ∈ rules.body item.production :=
    List.mem_of_getElem? next
  refine ⟨?_, isTerminal, mentions_of_mem_body (fun isAccept => ?_) inBody⟩
  · rw [stateAfter_concat_eq_goto leads]
    exact edge
  · rw [isAccept, body_accept, List.mem_singleton] at inBody
    rw [inBody, conflictFree.wellFormed.goal] at isTerminal
    simp at isTerminal

/-- A table accepts the goal alone, at the end of the source. -/
theorem accept_of_actionAfter
    (conflictFree : rules.ConflictFree table)
    (acts : rules.actionAfter table stack symbol = some .accept) :
    symbol = Grammar.endSymbol ∧ stack = [rules.goal] := by
  obtain ⟨state, leads, stateActs⟩ := Option.bind_eq_some_iff.mp acts
  obtain ⟨atEnd, kernel, found, complete⟩ :=
    mem_closure_of_action_accept conflictFree.built stateActs
  obtain ⟨before, rfl, starts⟩ :=
    (viable_of_mem_closure leads found complete).origin
  have isEmpty : before = [] := by
    generalize isItem : Item.mk rules.accept 0 = item at starts
    cases starts with
    | start => rfl
    | advance => simp [Item.advance] at isItem
    | predict _ called =>
        obtain ⟨rfl, -⟩ := Item.mk.inj isItem
        exact absurd rfl (Nat.ne_of_lt (lt_accept_of_mem_predicted called))
  rw [isEmpty, body_accept]
  exact ⟨atEnd, rfl⟩

/-- A table acts only on symbols that are mentioned and at the end of the
source. -/
theorem mentions_of_actionAfter
    (conflictFree : rules.ConflictFree table)
    {action : Action}
    (acts : rules.actionAfter table stack symbol = some action) :
    symbol = Grammar.endSymbol ∨ rules.Mentions symbol := by
  cases action with
  | shift target => exact .inr (conflictFree.shift_of_actionAfter acts).2.2
  | reduce production =>
      obtain ⟨_, _, _, _, _, _, reaches⟩ :=
        conflictFree.exists_reaches_of_actionAfter acts
      exact conflictFree.mentions_of_reaches reaches
  | accept => exact .inl (conflictFree.accept_of_actionAfter acts).1

end ConflictFree

/-! ## Determined steps -/

/-- Where a table acts there is one step at most. -/
theorem Steps.unique : Relator.RightUnique (rules.Steps table) := by
  intro before first second firstStep secondStep
  cases firstStep with
  | shift acts =>
      cases secondStep with
      | shift => rfl
      | reduce reduces =>
          cases reduces with
          | mk reduceActs _ => simp [acts] at reduceActs
  | reduce reduces =>
      cases secondStep with
      | shift acts =>
          cases reduces with
          | mk reduceActs _ => simp [acts] at reduceActs
      | reduce alsoReduces => rw [reduces.unique alsoReduces]

/-- A parser stops where its table accepts or has no action. -/
def Stops (rules : Rules) (table : Table)
    (configuration : List SymbolId × List SymbolId) : Prop :=
  ∃ symbol rest, configuration.2 = symbol :: rest ∧
    (rules.actionAfter table configuration.1 symbol = some .accept ∨
      rules.actionAfter table configuration.1 symbol = none)

theorem Stops.not_steps
    {before after : List SymbolId × List SymbolId}
    (stops : rules.Stops table before) :
    ¬ rules.Steps table before after := by
  intro step
  obtain ⟨symbol, rest, isInput, acts⟩ := stops
  cases step with
  | shift shifts =>
      obtain ⟨rfl, -⟩ := List.cons.inj isInput
      simp [shifts] at acts
  | reduce reduces =>
      obtain ⟨rfl, -⟩ := List.cons.inj isInput
      cases reduces with
      | mk reduceActs _ => simp [reduceActs] at acts

/-- A parser stops in one way only. -/
theorem Stops.unique
    {start first second : List SymbolId × List SymbolId}
    (firstSteps : Relation.ReflTransGen (rules.Steps table) start first)
    (firstStops : rules.Stops table first)
    (secondSteps : Relation.ReflTransGen (rules.Steps table) start second)
    (secondStops : rules.Stops table second) :
    first = second := by
  rcases Relation.ReflTransGen.total_of_right_unique Steps.unique firstSteps
    secondSteps with onward | onward
  · rcases Relation.ReflTransGen.cases_head onward with same | ⟨_, step, -⟩
    · exact same
    · exact absurd step firstStops.not_steps
  · rcases Relation.ReflTransGen.cases_head onward with same | ⟨_, step, -⟩
    · exact same.symm
    · exact absurd step secondStops.not_steps

/-! ## Accepted words -/

namespace ConflictFree

/-- The symbols on the stack yield what was shifted. -/
theorem yields_of_steps
    (conflictFree : rules.ConflictFree table)
    {configuration : List SymbolId × List SymbolId}
    (steps : Relation.ReflTransGen (rules.Steps table) ([], input)
      configuration) :
    ∃ consumed, input = consumed ++ configuration.2 ∧
      rules.grammar.Yields configuration.1 consumed := by
  induction steps with
  | refl => exact ⟨[], rfl, .nil⟩
  | tail _ step inductionHypothesis =>
      obtain ⟨consumed, rfl, yields⟩ := inductionHypothesis
      cases step with
      | @shift stack rest symbol target acts =>
          obtain ⟨-, isTerminal, -⟩ := conflictFree.shift_of_actionAfter acts
          exact ⟨consumed ++ [symbol], by simp,
            yields.append (.terminal isTerminal .nil)⟩
      | reduce reduces =>
          cases reduces with
          | @mk production head below acts heads =>
              obtain ⟨first, last, rfl, belowYields, bodyYields⟩ :=
                yields.split
              obtain ⟨rule, found, rfl⟩ := Option.map_eq_some_iff.mp heads
              rw [(body_of_rule found).2] at bodyYields
              have headYields := Grammar.Yields.production
                (Array.mem_of_getElem? found) bodyYields .nil
              rw [List.append_nil] at headYields
              exact ⟨first ++ last, rfl, belowYields.append headYields⟩

/-- A parser comes to accept every word that the goal yields. -/
theorem accepts_of_yields
    (conflictFree : rules.ConflictFree table)
    {word : List SymbolId}
    (yields : rules.grammar.Yields [rules.goal] word) :
    Relation.ReflTransGen (rules.Steps table)
        ([], word ++ [Grammar.endSymbol])
        ([rules.goal], [Grammar.endSymbol]) ∧
      rules.actionAfter table [rules.goal] Grammar.endSymbol =
        some .accept := by
  have split : (rules.body rules.accept).drop 0 = [rules.goal] ++ [] := by
    rw [body_accept]
    rfl
  have next : rules.next? ⟨rules.accept, 0⟩ = some rules.goal :=
    next?_eq_some_iff.mpr ⟨[], split⟩
  have complete : rules.next? ⟨rules.accept, 1⟩ = none := by
    simp [next?, body_accept]
  have reaches : rules.Reaches [rules.goal] ⟨rules.accept, 1⟩
    Grammar.endSymbol := .advance .start next
  have acts := conflictFree.actionAfter_of_reaches reaches complete
  rw [reduceAction, if_pos rfl] at acts
  exact ⟨conflictFree.steps_of_yields [] yields .start split
    (.inr ⟨.nil, .start⟩), acts⟩

end ConflictFree
end Rules
end Table
end ParserGenerator
