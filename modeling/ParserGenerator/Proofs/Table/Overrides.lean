import ParserGenerator.Proofs.Table.Resolving

/-!
# What overrides decide

A production that says to reduce on a symbol, where no other one that competes
says anything, is reduced and no resolver is asked. A production that says to
shift on a symbol yields to the shift if it is the only one that competes, but
not always if there are several: unless all of them say so, a resolver may keep
just that production.
-/

namespace ParserGenerator
namespace Table

theorem Analysis.nodup_reduces
    (analysis : Analysis)
    (state : Nat)
    (gotos : List (SymbolId × Nat))
    (closure : List LookaheadItem)
    (symbol : SymbolId) :
    (analysis.candidates state gotos closure symbol).reduces.Nodup :=
  (ascends_ascending _).nodup

namespace Rules

variable {rules : Rules} {resolver : Option Resolver}
  {candidates : Candidates} {state : Nat} {symbol : SymbolId}
  {production : ProductionId}

/-! ## Where questions come from -/

/-- A choice asks about its own state and symbol only. -/
theorem eq_of_mem_questions_choose
    {question : Nat × SymbolId}
    (asked : question ∈ questions (rules.choose resolver candidates).1) :
    question = (candidates.state, candidates.symbol) := by
  have aboutCore : question ∈
      questions (rules.chooseCore resolver candidates).1 →
        question = (candidates.state, candidates.symbol) := by
    unfold chooseCore
    dsimp only
    split
    · simp
    · split
      · simp [questions, Event.question?]
      · split <;> simp [questions, Event.question?]
  unfold choose at asked
  split at asked
  · simp at asked
  · simp at asked
  · unfold chooseShift at asked
    dsimp only at asked
    split at asked
    · simp at asked
    · split at asked
      · simp at asked
      · split at asked
        · simp at asked
        · split at asked
          · simp at asked
          · simpa [questions, Event.question?] using asked
  · unfold chooseReduce at asked
    dsimp only at asked
    split at asked
    · simp at asked
    · split at asked
      · split at asked
        · simp at asked
        · exact aboutCore asked
      · exact aboutCore asked

/-- What is asked while a table is built is asked for the candidates of the
state and the symbol in question. -/
theorem mem_questions_construct
    (asked : (state, symbol) ∈ questions (rules.construct resolver).events) :
    (state, symbol) ∈ questions
      (rules.choose resolver (rules.candidatesIn state symbol)).1 := by
  obtain ⟨other, another, -, askedThere⟩ :=
    exists_of_construct (traceable_question (state, symbol)) asked
  obtain ⟨rfl, rfl⟩ := Prod.mk.inj (eq_of_mem_questions_choose askedThere)
  exact askedThere

/-- What is asked for a grammar is asked for its rules. -/
theorem mem_questions_of_construct
    {question : Nat × SymbolId}
    (asked : question ∈
      questions (Table.construct rules.grammar rules.goal resolver).events) :
    question ∈ questions (rules.construct resolver).events := by
  unfold Table.construct at asked
  dsimp only at asked
  split at asked
  · simp at asked
  · split at asked
    · simp at asked
    · exact asked

/-! ## Productions that say to reduce -/

/-- The only production that says to reduce is reduced, and nothing is asked,
unless it says to shift as well. -/
theorem choose_of_filter_prefersReduce
    (only : candidates.reduces.filter
      (rules.prefersReduce candidates.symbol) = [production])
    (noShift : rules.prefersShift candidates.symbol production = false) :
    rules.choose resolver candidates =
      ([], .ok (some (rules.reduceAction production))) := by
  have member : production ∈ candidates.reduces.filter
      (rules.prefersReduce candidates.symbol) :=
    only ▸ List.mem_singleton_self production
  obtain ⟨competes, prefers⟩ := List.mem_filter.mp member
  unfold choose
  split
  · next reducesIs => simp [reducesIs] at competes
  · next other reducesIs _ =>
      obtain rfl := List.mem_singleton.mp (reducesIs ▸ competes)
      rfl
  · next other target reducesIs _ =>
      obtain rfl := List.mem_singleton.mp (reducesIs ▸ competes)
      simp [chooseShift, noShift, prefers]
  · simp [chooseReduce, only]

/-- Where a production is the only one that says to reduce, it is the only one
that remains of those that compete. -/
theorem filter_prefersReduce
    (nodup : candidates.reduces.Nodup)
    (competes : production ∈ candidates.reduces)
    (prefers : rules.prefersReduce candidates.symbol production = true)
    (others : ∀ other ∈ candidates.reduces, other ≠ production →
      rules.prefersReduce candidates.symbol other = false) :
    candidates.reduces.filter (rules.prefersReduce candidates.symbol) =
      [production] := by
  refine List.perm_singleton.mp ?_
  refine (List.perm_ext_iff_of_nodup (nodup.filter _)
    (List.nodup_singleton _)).mpr fun other => ?_
  rw [List.mem_filter, List.mem_singleton]
  constructor
  · rintro ⟨member, preferred⟩
    by_contra different
    simp [others other member different] at preferred
  · rintro rfl
    exact ⟨competes, prefers⟩

/-! ## Productions that say to shift -/

/-- A production with an override is not that of the goal. -/
theorem ne_accept_of_prefersShift
    (prefers : rules.prefersShift symbol production = true) :
    production ≠ rules.accept := by
  rintro rfl
  simp [prefersShift, accept] at prefers

theorem ne_accept_of_prefersReduce
    (prefers : rules.prefersReduce symbol production = true) :
    production ≠ rules.accept := by
  rintro rfl
  simp [prefersReduce, accept] at prefers

theorem reduceAction_eq_reduce_iff {other : ProductionId} :
    rules.reduceAction other = .reduce production ↔
      other ≠ rules.accept ∧ other = production := by
  unfold reduceAction
  split
  · next isAccept => simp [isAccept]
  · next notAccept => simp [notAccept]

/-- The items that a resolver keeps denote a reduction if it keeps nothing but
the complete item of the production. -/
theorem keptAction?_eq_reduce_iff
    {kept : List Item}
    (incomplete : ∀ item ∈ candidates.shiftItems,
      rules.isComplete item = false)
    (competes : production ∈ candidates.reduces)
    (notAccept : production ≠ rules.accept) :
    rules.keptAction? candidates (rules.competing candidates) kept =
        some (.reduce production) ↔
      kept = [⟨production, (rules.body production).length⟩] := by
  constructor
  · intro denoted
    unfold keptAction? at denoted
    split at denoted
    · simp at denoted
    · next usable =>
        have keptCompetes : ∀ item ∈ kept,
            item ∈ rules.competing candidates := by
          simp only [Bool.or_eq_true, Bool.not_eq_true', not_or,
            Bool.not_eq_false, List.all_eq_true, List.contains_iff_mem]
            at usable
          exact usable.2
        split at denoted
        · simp at denoted
        · next item single =>
            split at denoted
            · next alone =>
                have member : item ∈ kept.filter rules.isComplete :=
                  single ▸ List.mem_singleton_self item
                obtain ⟨itemKept, isComplete⟩ := List.mem_filter.mp member
                obtain ⟨other, rfl⟩ := List.length_eq_one_iff.mp alone
                obtain rfl := List.mem_singleton.mp itemKept
                rcases List.mem_append.mp (keptCompetes _ itemKept) with
                  reduces | shifts
                · obtain ⟨other, -, rfl⟩ := List.mem_map.mp reduces
                  obtain ⟨-, rfl⟩ :=
                    reduceAction_eq_reduce_iff.mp (Option.some.inj denoted)
                  rfl
                · simp [incomplete _ shifts] at isComplete
            · simp at denoted
        · simp at denoted
  · rintro rfl
    have isCompeting : (⟨production, (rules.body production).length⟩ : Item) ∈
        rules.competing candidates :=
      List.mem_append_left _ (List.mem_map.mpr ⟨production, competes, rfl⟩)
    simp [keptAction?, isCompeting, isComplete, reduceAction, notAccept]

theorem chooseCore_eq_reduce_iff
    (incomplete : ∀ item ∈ candidates.shiftItems,
      rules.isComplete item = false)
    (competes : production ∈ candidates.reduces)
    (notAccept : production ≠ rules.accept) :
    (rules.chooseCore resolver candidates).2 =
        .ok (some (.reduce production)) ↔
      ∃ policy, resolver = some policy ∧
        policy.onCore rules.grammar candidates.symbol
          (rules.competing candidates) =
            some [⟨production, (rules.body production).length⟩] := by
  unfold chooseCore
  dsimp only
  split
  · simp
  · next policy =>
      split
      · next noAnswer => simp [noAnswer]
      · next kept answer =>
          have denotes : rules.keptAction? candidates
              (rules.competing candidates) kept = some (.reduce production) ↔
                kept = [⟨production, (rules.body production).length⟩] :=
            keptAction?_eq_reduce_iff incomplete competes notAccept
          split
          · next action denoted =>
              rw [denoted, Option.some.injEq] at denotes
              simp [answer, denotes]
          · next undenoted =>
              rw [undenoted] at denotes
              simpa [answer] using denotes

/-- Several productions of which one says to shift and not to reduce: it is
reduced nevertheless if they do not all say so, if there is no single one that
says to reduce, and if a resolver keeps just this one. -/
theorem choose_eq_reduce_iff
    (incomplete : ∀ item ∈ candidates.shiftItems,
      rules.isComplete item = false)
    (shifts : candidates.shift.isSome = true)
    (competes : production ∈ candidates.reduces)
    (toShift : rules.prefersShift candidates.symbol production = true)
    (notReduce : rules.prefersReduce candidates.symbol production = false) :
    (rules.choose resolver candidates).2 = .ok (some (.reduce production)) ↔
      (∃ other ∈ candidates.reduces,
        rules.prefersShift candidates.symbol other = false) ∧
      (∀ other, candidates.reduces.filter
        (rules.prefersReduce candidates.symbol) ≠ [other]) ∧
      ∃ policy, resolver = some policy ∧
        policy.onCore rules.grammar candidates.symbol
          (rules.competing candidates) =
            some [⟨production, (rules.body production).length⟩] := by
  obtain ⟨target, shiftIs⟩ := Option.isSome_iff_exists.mp shifts
  unfold choose
  split
  · next reducesIs => simp [reducesIs] at competes
  · next noShift => simp [noShift] at shifts
  · next other target' reducesIs _ =>
      obtain rfl := List.mem_singleton.mp (reducesIs ▸ competes)
      simp [chooseShift, toShift, reducesIs]
  · unfold chooseReduce
    dsimp only
    split
    · next other only =>
        have member : other ∈ candidates.reduces.filter
            (rules.prefersReduce candidates.symbol) :=
          only ▸ List.mem_singleton_self other
        have toReduce := (List.mem_filter.mp member).2
        have different : other ≠ production := by
          rintro rfl
          simp [notReduce] at toReduce
        simp [reduceAction_eq_reduce_iff, different, only]
    · next several =>
        rw [shiftIs]
        dsimp only
        split
        · next all =>
            rw [List.all_eq_true] at all
            simp only [Except.ok.injEq, Option.some.injEq, reduceCtorEq,
              false_iff, not_and]
            rintro ⟨other, member, unsaid⟩
            simp [all other member] at unsaid
        · next notAll =>
            rw [chooseCore_eq_reduce_iff incomplete competes
              (ne_accept_of_prefersShift toShift)]
            have unsaid : ∃ other ∈ candidates.reduces,
                rules.prefersShift candidates.symbol other = false := by
              simpa using notAll
            exact ⟨fun kept => ⟨unsaid, several, kept⟩, fun all => all.2.2⟩

theorem incomplete_candidatesIn
    (rules : Rules)
    (state : Nat)
    (symbol : SymbolId) :
    ∀ item ∈ (rules.candidatesIn state symbol).shiftItems,
      rules.isComplete item = false := by
  intro item member
  exact not_isComplete_of_next? (mem_shiftItems.mp member).2.1

theorem nodup_reduces_candidatesIn
    (rules : Rules)
    (state : Nat)
    (symbol : SymbolId) :
    (rules.candidatesIn state symbol).reduces.Nodup :=
  Analysis.nodup_reduces _ _ _ _ _

/-- The action on a symbol on which something can be reduced is the one that is
chosen. -/
theorem action_eq_iff_of_mem_reduces
    {table : Table}
    {action : Action}
    (built : (rules.construct resolver).result = .ok table)
    (inside : state < table.states.size)
    (competes : production ∈ (rules.candidatesIn state symbol).reduces) :
    table.action state symbol = some action ↔
      (rules.choose resolver (rules.candidatesIn state symbol)).2 =
        .ok (some action) := by
  rw [action_of_construct built]
  have isState : state < rules.kernelGraph.kernels.size :=
    (states_of_construct built).1 ▸ inside
  have acts : symbol ∈ rules.analysis.actionSymbols
      (rules.lookaheadClosure state) := by
    obtain ⟨item, ⟨symbols, member, looks⟩, complete, -⟩ :=
      mem_reduces_candidatesIn.mp competes
    refine mem_ascending.mpr (List.mem_flatMap.mpr ⟨_, member, ?_⟩)
    simpa [complete] using looks
  simp [isState, acts]

end Rules

/-- What the overrides of a production decide in a table, whatever the
resolver. A production that says to shift where a shift is possible, and not to
reduce, is reduced only if another one that competes does not say to shift, none
is the only one that says to reduce, and the resolver keeps just the production.
A production that says to reduce and not to shift, where the others that compete
say neither, is reduced and the resolver is not asked. -/
theorem overrides_decide
    {rules : Rules}
    {resolver : Option Resolver}
    {table : Table}
    (built : (construct rules.grammar rules.goal resolver).result = .ok table)
    {state : Nat}
    (inside : state < table.states.size)
    {symbol : SymbolId}
    {production : ProductionId}
    (competes : production ∈ (rules.candidatesIn state symbol).reduces) :
    ((rules.candidatesIn state symbol).shift.isSome = true →
      rules.prefersShift symbol production = true →
      rules.prefersReduce symbol production = false →
        (table.action state symbol = some (.reduce production) ↔
          (∃ other ∈ (rules.candidatesIn state symbol).reduces,
            rules.prefersShift symbol other = false) ∧
          (∀ other, (rules.candidatesIn state symbol).reduces.filter
            (rules.prefersReduce symbol) ≠ [other]) ∧
          ∃ policy, resolver = some policy ∧
            policy.onCore rules.grammar symbol
              (rules.competing (rules.candidatesIn state symbol)) =
                some [⟨production, (rules.body production).length⟩])) ∧
    (rules.prefersReduce symbol production = true →
      rules.prefersShift symbol production = false →
      (∀ other ∈ (rules.candidatesIn state symbol).reduces,
        other ≠ production →
          rules.prefersReduce symbol other = false ∧
            rules.prefersShift symbol other = false) →
        table.action state symbol = some (.reduce production) ∧
          (state, symbol) ∉ questions
            (construct rules.grammar rules.goal resolver).events) := by
  have builtRules := Rules.construct_of_ok built
  constructor
  · intro shifts toShift notReduce
    rw [Rules.action_eq_iff_of_mem_reduces builtRules inside competes]
    exact Rules.choose_eq_reduce_iff
      (rules.incomplete_candidatesIn state symbol) shifts competes toShift
      notReduce
  · intro toReduce notShift others
    have only := Rules.filter_prefersReduce
      (rules.nodup_reduces_candidatesIn state symbol) competes toReduce
      fun other member different => (others other member different).1
    have chosen : rules.choose resolver (rules.candidatesIn state symbol) =
        ([], .ok (some (rules.reduceAction production))) :=
      Rules.choose_of_filter_prefersReduce only notShift
    have isReduce : rules.reduceAction production = .reduce production :=
      Rules.reduceAction_eq_reduce_iff.mpr
        ⟨Rules.ne_accept_of_prefersReduce toReduce, rfl⟩
    constructor
    · rw [Rules.action_eq_iff_of_mem_reduces builtRules inside competes,
        chosen, isReduce]
    · intro asked
      have askedThere := Rules.mem_questions_construct
        (Rules.mem_questions_of_construct asked)
      simp [chosen] at askedThere

/-- The grammar in which `x` may be an `A` or a `B` before `y`, and a `B` before
`z`; an `A` yields to a shift of `y`, and a `B` is preferred to one of `z`. -/
def yieldingRules : Rules where
  grammar := ⟨false,
    #[⟨"$end", .endOfSource⟩, ⟨"$nl", .lineBreak⟩, ⟨"$nonl", .noLineBreak⟩,
      ⟨"x", .terminal (.text "x") ⟨false, false⟩⟩,
      ⟨"y", .terminal (.text "y") ⟨false, false⟩⟩,
      ⟨"z", .terminal (.text "z") ⟨false, false⟩⟩,
      ⟨"S", .nonTerminal⟩, ⟨"A", .nonTerminal⟩, ⟨"B", .nonTerminal⟩],
    #[⟨"S:1", 6, [3, 4], [], [], []⟩, ⟨"S:2", 6, [7, 4], [], [], []⟩,
      ⟨"S:3", 6, [8, 4], [], [], []⟩, ⟨"S:4", 6, [3, 5], [], [], []⟩,
      ⟨"S:5", 6, [8, 5], [], [], []⟩, ⟨"A:1", 7, [3], [4], [], []⟩,
      ⟨"B:1", 8, [3], [], [5], []⟩]⟩
  goal := 6

/-- The policy that keeps the first item. -/
def Resolver.first : Resolver :=
  ⟨fun _ _ _ => .shift, fun _ _ items => some (items.take 1)⟩

/-- The table of `yieldingRules` if the first item is kept. -/
def yieldingTable : Table where
  states := #[
    ⟨[(⟨7, 0⟩, [0])], [(3, 1), (6, 2), (7, 3), (8, 4)], [(3, .shift 1)],
      none⟩,
    ⟨[(⟨0, 1⟩, [0]), (⟨3, 1⟩, [0]), (⟨5, 1⟩, [4]), (⟨6, 1⟩, [4, 5])],
      [(4, 5), (5, 6)], [(4, .reduce 5), (5, .reduce 6)], some 3⟩,
    ⟨[(⟨7, 1⟩, [0])], [], [(0, .accept)], some 6⟩,
    ⟨[(⟨1, 1⟩, [0])], [(4, 7)], [(4, .shift 7)], some 7⟩,
    ⟨[(⟨2, 1⟩, [0]), (⟨4, 1⟩, [0])], [(4, 8), (5, 9)],
      [(4, .shift 8), (5, .shift 9)], some 8⟩,
    ⟨[(⟨0, 2⟩, [0])], [], [(0, .reduce 0)], some 4⟩,
    ⟨[(⟨3, 2⟩, [0])], [], [(0, .reduce 3)], some 5⟩,
    ⟨[(⟨1, 2⟩, [0])], [], [(0, .reduce 1)], some 4⟩,
    ⟨[(⟨2, 2⟩, [0])], [], [(0, .reduce 2)], some 4⟩,
    ⟨[(⟨4, 2⟩, [0])], [], [(0, .reduce 4)], some 5⟩]
  goal := 6
  accept := 7

theorem construct_yieldingRules :
    (construct yieldingRules.grammar yieldingRules.goal
      (some .first)).result = .ok yieldingTable := by
  decide +kernel

/-- A production that says to shift is reduced where a shift is possible. -/
theorem yielding_reduces_despite_shift :
    (construct yieldingRules.grammar yieldingRules.goal
      (some .first)).result = .ok yieldingTable ∧
    (yieldingRules.candidatesIn 1 4).shift = some 5 ∧
    (yieldingRules.candidatesIn 1 4).reduces = [5, 6] ∧
    yieldingRules.prefersShift 4 5 = true ∧
    yieldingRules.prefersReduce 4 5 = false ∧
    yieldingTable.action 1 4 = some (.reduce 5) := by
  refine ⟨construct_yieldingRules, ?_, ?_, ?_⟩
  · decide +kernel
  · decide +kernel
  · decide

/-- On `y` the `A` is reduced because the `B` does not say to shift; on `z` the
`B` is reduced because it says so. -/
theorem overrides_decide_yielding :
    ((∃ other ∈ (yieldingRules.candidatesIn 1 4).reduces,
        yieldingRules.prefersShift 4 other = false) ∧
      ∃ policy, some Resolver.first = some policy ∧
        policy.onCore yieldingRules.grammar 4
          (yieldingRules.competing (yieldingRules.candidatesIn 1 4)) =
            some [⟨5, 1⟩]) ∧
    yieldingTable.action 1 5 = some (.reduce 6) ∧
      (1, 5) ∉ questions (construct yieldingRules.grammar yieldingRules.goal
        (some .first)).events := by
  constructor
  · have competes : 5 ∈ (yieldingRules.candidatesIn 1 4).reduces := by
      decide +kernel
    have decides := (overrides_decide construct_yieldingRules (by decide)
      competes).1 (by decide +kernel) (by decide) (by decide)
    obtain ⟨unsaid, -, kept⟩ := decides.mp (by decide)
    exact ⟨unsaid, kept⟩
  · exact (overrides_decide construct_yieldingRules (by decide)
      (by decide +kernel)).2 (by decide) (by decide) (by decide +kernel)

end Table
end ParserGenerator
