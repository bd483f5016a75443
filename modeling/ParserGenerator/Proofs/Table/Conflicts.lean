import ParserGenerator.Proofs.Table.Overrides

/-!
# What a conflict names

A table that is not built for a conflict is not built for the candidates in one
state on one symbol. Between a shift and one reduction the conflict names every
production that competes. Among several reductions it names these only, though a
shift may compete with them as well; and after a resolver has kept items that
denote no action, it names the productions of these items.
-/

namespace ParserGenerator
namespace Table

/-! ## Choices that fail -/

theorem mem_distinct {name : String} {names : List String} :
    name ∈ distinct names ↔ name ∈ names := by
  suffices ∀ found, name ∈ names.foldl (fun found name =>
      if found.contains name then found else found ++ [name]) found ↔
        name ∈ found ∨ name ∈ names by
    simpa [distinct] using this []
  intro found
  induction names generalizing found with
  | nil => simp
  | cons first rest inductionHypothesis =>
      rw [List.foldl_cons, inductionHypothesis, List.mem_cons, ← or_assoc]
      refine or_congr_left ?_
      split
      · next isKnown =>
          have known : first ∈ found := List.contains_iff_mem.mp isKnown
          exact ⟨.inl, fun either => either.elim id (· ▸ known)⟩
      · rw [List.mem_append, List.mem_singleton]

namespace Rules

variable {rules : Rules} {resolver : Option Resolver} {error : TableError}
  {candidates : Candidates} {conflict : Conflict} {state : Nat}
  {symbol : SymbolId}

/-- Where there is a conflict, the goal is a non-terminal and every non-terminal
that is used has productions. -/
theorem construct_of_conflict
    (fails : (Table.construct rules.grammar rules.goal resolver).result =
      .error error)
    (isConflict : error.conflict? = some conflict) :
    (rules.construct resolver).result = .error error := by
  unfold Table.construct at fails
  dsimp only at fails
  split at fails
  · obtain rfl := Except.error.inj fails
    cases isConflict
  · split at fails
    · obtain rfl := Except.error.inj fails
      cases isConflict
    · exact fails

theorem chooseShift_eq_error
    {target : Nat}
    {production : ProductionId}
    (fails : (rules.chooseShift resolver candidates target production).2 =
      .error error) :
    error = .shiftReduce (rules.distinctConflict candidates
      (candidates.reduces ++ candidates.shiftItems.map Item.production)) := by
  unfold chooseShift at fails
  dsimp only at fails
  split at fails
  · cases fails
  · split at fails
    · cases fails
    · split at fails
      · exact (Except.error.inj fails).symm
      · split at fails
        · exact (Except.error.inj fails).symm
        · cases fails

theorem chooseCore_eq_error
    (fails : (rules.chooseCore resolver candidates).2 = .error error) :
    error = .reduceReduce
        (rules.distinctConflict candidates candidates.reduces) ∨
      ∃ policy kept, resolver = some policy ∧
        policy.onCore rules.grammar candidates.symbol
          (rules.competing candidates) = some kept ∧
        rules.keptAction? candidates (rules.competing candidates) kept =
          none ∧
        error = .coreConflict
          (rules.conflict candidates (kept.map Item.production)) := by
  unfold chooseCore at fails
  dsimp only at fails
  split at fails
  · exact .inl (Except.error.inj fails).symm
  · next policy =>
      split at fails
      · exact .inl (Except.error.inj fails).symm
      · next kept answer =>
          split at fails
          · cases fails
          · next undenoted =>
              exact .inr ⟨policy, kept, rfl, answer, undenoted,
                (Except.error.inj fails).symm⟩

/-- A choice fails between a shift and one reduction, among several reductions,
or after a resolver has kept items that denote no action. -/
theorem choose_eq_error
    (fails : (rules.choose resolver candidates).2 = .error error) :
    (candidates.shift.isSome = true ∧
        error = .shiftReduce (rules.distinctConflict candidates
          (candidates.reduces ++
            candidates.shiftItems.map Item.production))) ∨
      error = .reduceReduce
        (rules.distinctConflict candidates candidates.reduces) ∨
      ∃ policy kept, resolver = some policy ∧
        policy.onCore rules.grammar candidates.symbol
          (rules.competing candidates) = some kept ∧
        rules.keptAction? candidates (rules.competing candidates) kept =
          none ∧
        error = .coreConflict
          (rules.conflict candidates (kept.map Item.production)) := by
  unfold choose at fails
  split at fails
  · cases fails
  · cases fails
  · next production target isReduces isShift =>
      refine .inl ⟨by rw [isShift]; rfl, ?_⟩
      exact chooseShift_eq_error fails
  · unfold chooseReduce at fails
    dsimp only at fails
    split at fails
    · cases fails
    · split at fails
      · split at fails
        · cases fails
        · exact .inr (chooseCore_eq_error fails)
      · exact .inr (chooseCore_eq_error fails)

/-! ## What competes -/

/-- A production whose complete item in a state has the symbol among its
lookaheads. -/
def Completes (rules : Rules) (state : Nat) (symbol : SymbolId)
    (production : ProductionId) : Prop :=
  ∃ item, rules.Looks state item symbol ∧ rules.next? item = none ∧
    item.production = production

/-- A production with an item in a state that has the symbol after its dot. -/
def Expects (rules : Rules) (state : Nat) (symbol : SymbolId)
    (production : ProductionId) : Prop :=
  ∃ item, (∃ symbols, (item, symbols) ∈ rules.lookaheadClosure state) ∧
    rules.next? item = some symbol ∧ item.production = production

/-- Where a shift is possible, the items that it advances are those with the
symbol after their dot. -/
theorem mem_shiftItems_iff_expects
    {production : ProductionId}
    (inside : state < rules.kernelGraph.kernels.size)
    (shifts : (rules.candidatesIn state symbol).shift.isSome = true) :
    production ∈
        (rules.candidatesIn state symbol).shiftItems.map Item.production ↔
      rules.Expects state symbol production := by
  obtain ⟨target, isShift⟩ := Option.isSome_iff_exists.mp shifts
  have isTerminal := ((shift_candidatesIn
    (Array.getElem?_eq_getElem inside)).mp isShift).2
  simp [Expects, mem_shiftItems, isTerminal, and_assoc]

theorem mem_productions_distinctConflict
    {productions : List ProductionId}
    {name : String} :
    name ∈ (rules.distinctConflict candidates productions).productions ↔
      ∃ production ∈ productions, rules.productionName production = name := by
  rw [distinctConflict, mem_distinct, List.mem_map]

end Rules

/-- A table that is not built for a conflict is not built for a state and a
symbol. A conflict between a shift and a reduction names just the productions
that compete there. One among several reductions names just those, and none of
the productions that a shift would go on with. After a resolver has kept items
that denote no action the conflict names the productions of these items. -/
theorem productions_of_conflict
    {rules : Rules}
    {resolver : Option Resolver}
    {error : TableError}
    {conflict : Conflict}
    (fails : (construct rules.grammar rules.goal resolver).result =
      .error error)
    (isConflict : error.conflict? = some conflict) :
    ∃ symbol, conflict.symbol = rules.grammar.name symbol ∧
      conflict.state < rules.kernelGraph.kernels.size ∧
      (rules.choose resolver (rules.candidatesIn conflict.state symbol)).2 =
        .error error ∧
      (error = .shiftReduce conflict → ∀ name,
        name ∈ conflict.productions ↔
          ∃ production, (rules.Completes conflict.state symbol production ∨
              rules.Expects conflict.state symbol production) ∧
            rules.productionName production = name) ∧
      (error = .reduceReduce conflict → ∀ name,
        name ∈ conflict.productions ↔
          ∃ production, rules.Completes conflict.state symbol production ∧
            rules.productionName production = name) ∧
      (error = .coreConflict conflict →
        ∃ policy kept, resolver = some policy ∧
          policy.onCore rules.grammar symbol (rules.competing
            (rules.candidatesIn conflict.state symbol)) = some kept ∧
          rules.keptAction? (rules.candidatesIn conflict.state symbol)
            (rules.competing (rules.candidatesIn conflict.state symbol)) kept =
              none ∧
          conflict.productions =
            kept.map fun item => rules.productionName item.production) := by
  obtain ⟨state, symbol, inside, chosen⟩ :=
    Rules.exists_of_construct (traceable_error error)
      (Rules.construct_of_conflict fails isConflict)
  rcases Rules.choose_eq_error chosen with
    ⟨shifts, rfl⟩ | rfl | ⟨policy, kept, isPolicy, answer, undenoted, rfl⟩
  · obtain rfl := Option.some.inj isConflict
    refine ⟨symbol, rfl, inside, chosen, fun _ name => ?_, nofun, nofun⟩
    rw [Rules.mem_productions_distinctConflict]
    simp only [List.mem_append, Rules.mem_reduces_candidatesIn,
      Rules.mem_shiftItems_iff_expects inside shifts]
    rfl
  · obtain rfl := Option.some.inj isConflict
    refine ⟨symbol, rfl, inside, chosen, nofun, fun _ name => ?_, nofun⟩
    rw [Rules.mem_productions_distinctConflict]
    simp only [Rules.mem_reduces_candidatesIn]
    rfl
  · obtain rfl := Option.some.inj isConflict
    refine ⟨symbol, rfl, inside, chosen, nofun, nofun, fun _ =>
      ⟨policy, kept, isPolicy, answer, undenoted, ?_⟩⟩
    exact List.map_map

/-- The grammar in which `x` may stay, or become an `A` or a `B`, before `y`. -/
def triplyAmbiguousRules : Rules where
  grammar := ⟨false,
    #[⟨"$end", .endOfSource⟩, ⟨"$nl", .lineBreak⟩, ⟨"$nonl", .noLineBreak⟩,
      ⟨"x", .terminal (.text "x") ⟨false, false⟩⟩,
      ⟨"y", .terminal (.text "y") ⟨false, false⟩⟩,
      ⟨"S", .nonTerminal⟩, ⟨"A", .nonTerminal⟩, ⟨"B", .nonTerminal⟩],
    #[⟨"S:1", 5, [3, 4], [], [], []⟩, ⟨"S:2", 5, [6, 4], [], [], []⟩,
      ⟨"S:3", 5, [7, 4], [], [], []⟩, ⟨"A:1", 6, [3], [], [], []⟩,
      ⟨"B:1", 7, [3], [], [], []⟩]⟩
  goal := 5

/-- The policy that keeps no item. -/
def Resolver.keepingNone : Resolver :=
  ⟨fun _ _ _ => .shift, fun _ _ _ => some []⟩

theorem construct_triplyAmbiguousRules :
    (construct triplyAmbiguousRules.grammar triplyAmbiguousRules.goal
      none).result = .error (.reduceReduce ⟨1, "y", ["A:1", "B:1"]⟩) := by
  decide +kernel

theorem productions_of_conflict_triplyAmbiguous :
    (construct triplyAmbiguousRules.grammar triplyAmbiguousRules.goal
        none).result = .error (.reduceReduce ⟨1, "y", ["A:1", "B:1"]⟩) ∧
      ∃ symbol, "y" = triplyAmbiguousRules.grammar.name symbol ∧
        ∃ production, triplyAmbiguousRules.Completes 1 symbol production ∧
          triplyAmbiguousRules.productionName production = "B:1" := by
  obtain ⟨symbol, isSymbol, -, -, -, several, -⟩ :=
    productions_of_conflict construct_triplyAmbiguousRules rfl
  exact ⟨construct_triplyAmbiguousRules, symbol, isSymbol,
    (several rfl "B:1").mp (by decide)⟩

/-- A production that a shift of `y` would go on with competes with two
reductions but is not named, and a resolver that keeps nothing leaves a conflict
that names nothing. -/
theorem triplyAmbiguous_names_not_all :
    (construct triplyAmbiguousRules.grammar triplyAmbiguousRules.goal
        none).result = .error (.reduceReduce ⟨1, "y", ["A:1", "B:1"]⟩) ∧
      (construct triplyAmbiguousRules.grammar triplyAmbiguousRules.goal
        (some .keepingNone)).result = .error (.coreConflict ⟨1, "y", []⟩) ∧
      triplyAmbiguousRules.grammar.name 4 = "y" ∧
      triplyAmbiguousRules.Expects 1 4 0 ∧
      triplyAmbiguousRules.productionName 0 = "S:1" := by
  refine ⟨construct_triplyAmbiguousRules, ?_, ?_, ?_, ?_⟩
  · decide +kernel
  · decide
  · exact ⟨⟨0, 1⟩, ⟨[0], by decide +kernel⟩, by decide, rfl⟩
  · decide

end Table
end ParserGenerator
