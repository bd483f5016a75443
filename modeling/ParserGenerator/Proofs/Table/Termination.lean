import Mathlib.Data.Finset.Card
import Mathlib.Data.Finset.Range
import Mathlib.Data.Prod.Lex
import ParserGenerator.Proofs.Table.Recognition

/-!
# Reductions come to an end

Between two shifts a parser reduces finitely often. Where the next symbol may
really come after the recognised symbols, every reduction brings the parser
nearer to it. A table without separate states for such cases also reduces where
the next symbol may only come elsewhere; it then does what it would do
elsewhere until it touches the symbols it started with.
-/

namespace ParserGenerator
namespace Table
namespace Rules

/-- Every sequence of reductions ends. -/
def Terminates (rules : Rules) (table : Table) (symbol : SymbolId)
    (stack : List SymbolId) : Prop :=
  Acc (fun after before => rules.Reduces table symbol before after) stack

variable {rules : Rules} {table : Table} {symbol : SymbolId}
  {stack next : List SymbolId}

/-- A table reduces in one way only. -/
theorem Reduces.unique
    {other : List SymbolId}
    (reduces : rules.Reduces table symbol stack next)
    (alsoReduces : rules.Reduces table symbol stack other) :
    next = other := by
  cases reduces with
  | @mk production head below acts heads =>
      generalize isStack : below ++ rules.body production = stack at alsoReduces
      cases alsoReduces with
      | @mk otherProduction otherHead otherBelow otherActs otherHeads =>
          rw [isStack, otherActs] at acts
          obtain rfl := Action.reduce.inj (Option.some.inj acts)
          obtain rfl := List.append_cancel_right isStack
          obtain rfl := Option.some.inj (heads.symm.trans otherHeads)
          rfl

namespace Terminates

/-- Reductions end if the table does not reduce. -/
theorem of_action
    (otherwise : ∀ production,
      rules.actionAfter table stack symbol ≠ some (.reduce production)) :
    rules.Terminates table symbol stack := by
  refine .intro _ fun next reduces => ?_
  cases reduces with
  | mk acts _ => exact absurd acts (otherwise _)

theorem of_reduces
    (reduces : rules.Reduces table symbol stack next)
    (terminates : rules.Terminates table symbol next) :
    rules.Terminates table symbol stack := by
  refine .intro _ fun other alsoReduces => ?_
  rw [← reduces.unique alsoReduces]
  exact terminates

theorem of_reductions
    (reductions : Relation.ReflTransGen (rules.Reduces table symbol) stack next)
    (terminates : rules.Terminates table symbol next) :
    rules.Terminates table symbol stack := by
  induction reductions using Relation.ReflTransGen.head_induction_on with
  | refl => exact terminates
  | head reduces _ inductionHypothesis =>
      exact of_reduces reduces inductionHypothesis

/-- Where reductions end they do not come back. -/
theorem not_cycle
    (terminates : rules.Terminates table symbol stack) :
    ¬ Relation.TransGen (rules.Reduces table symbol) stack stack := by
  have accessible : Acc (Relation.TransGen
      fun after before => rules.Reduces table symbol before after) stack :=
    Acc.transGen terminates
  intro cycle
  induction accessible with
  | intro stack _ inductionHypothesis =>
      exact inductionHypothesis stack (Relation.transGen_swap.mpr cycle)
        terminates cycle

end Terminates

/-! ## Where the next symbol may come -/

/-- Along steps that leave the input as it is there are only reductions. -/
theorem Steps.reductions_of_eq
    {start finish : List SymbolId × List SymbolId}
    {rest : List SymbolId}
    (steps : Relation.ReflTransGen (rules.Steps table) start finish)
    (before : start.2 = symbol :: rest)
    (after : finish.2 = symbol :: rest) :
    Relation.ReflTransGen (rules.Reduces table symbol) start.1 finish.1 := by
  have shorter : ∀ {first last : List SymbolId × List SymbolId},
      Relation.ReflTransGen (rules.Steps table) first last →
        last.2.length ≤ first.2.length := by
    intro first last steps
    induction steps with
    | refl => exact Nat.le_refl _
    | tail _ step inductionHypothesis =>
        cases step with
        | shift => exact Nat.le_of_succ_le inductionHypothesis
        | reduce => exact inductionHypothesis
  induction steps using Relation.ReflTransGen.head_induction_on with
  | refl => exact .refl
  | head step onward inductionHypothesis =>
      cases step with
      | shift acts =>
          have lengths := shorter onward
          rw [after, ← before] at lengths
          exact absurd lengths (Nat.not_succ_le_self _)
      | reduce reduces =>
          obtain ⟨rfl, rfl⟩ := List.cons.inj before
          exact .head reduces (inductionHypothesis rfl)

/-- The head of the production of an item can come before the item, and
reductions end from there. -/
def Settles (rules : Rules) (table : Table) (symbol : SymbolId)
    (stack : List SymbolId) (item : Item) : Prop :=
  item.production = rules.accept ∨
    ∃ below head,
      stack = below ++ (rules.body item.production).take item.dot ∧
        rules.head? item.production = some head ∧
        rules.Terminates table symbol (below ++ [head])

variable {item : Item} {rest : List SymbolId}

theorem ne_accept_of_head?
    {production : ProductionId}
    {head : SymbolId}
    (heads : rules.head? production = some head) :
    production ≠ rules.accept := by
  obtain ⟨rule, found, -⟩ := Option.map_eq_some_iff.mp heads
  exact (body_of_rule found).1

theorem Settles.advance
    {next : SymbolId}
    (settles : rules.Settles table symbol stack item)
    (isNext : rules.next? item = some next) :
    rules.Settles table symbol (stack ++ [next]) item.advance := by
  refine settles.imp_right ?_
  rintro ⟨below, head, rfl, heads, terminates⟩
  have nextSymbol : (rules.body item.production)[item.dot]? =
    some next := isNext
  refine ⟨below, head, ?_, heads, terminates⟩
  simp [Item.advance, List.take_add_one, nextSymbol]

namespace ConflictFree

/-- Symbols that yield nothing are recognised by reductions. -/
theorem reductions_of_nullable
    (conflictFree : rules.ConflictFree table)
    {parsed : List SymbolId}
    (nullable : rules.grammar.Nullable parsed)
    (viable : rules.Viable stack item)
    (split : (rules.body item.production).drop item.dot = parsed ++ rest)
    (mayFollow : rules.MayFollow stack item rest symbol) :
    Relation.ReflTransGen (rules.Reduces table symbol) stack
      (stack ++ parsed) :=
  Steps.reductions_of_eq
    (conflictFree.steps_of_yields [] nullable.yields viable split mayFollow)
    rfl rfl

/-- Reductions end where the next symbol is what is left of an item starts
with. -/
theorem terminates_of_starts
    (conflictFree : rules.ConflictFree table)
    (starts : rules.grammar.Starts rest symbol)
    (viable : rules.Viable stack item)
    (split : (rules.body item.production).drop item.dot = rest) :
    rules.Terminates table symbol stack := by
  induction starts generalizing stack item with
  | here isTerminal =>
      obtain ⟨target, acts⟩ := conflictFree.actionAfter_of_viable viable
        (next?_eq_some_iff.mpr ⟨_, split⟩) isTerminal
      refine .of_action fun production => ?_
      simp [acts]
  | @inside rule rest symbol member _ inductionHypothesis =>
      obtain ⟨production, inside, isRule⟩ := Array.mem_iff_getElem.mp member
      have found : rules.grammar.productions[production]? = some rule :=
        Array.getElem?_eq_some_iff.mpr ⟨inside, isRule⟩
      have called := mem_predicted_of_rule conflictFree.wellFormed found
        (next?_eq_some_iff.mpr ⟨_, split⟩)
      refine inductionHypothesis (.predict viable called) ?_
      rw [(body_of_rule found).2, List.drop_zero]
  | later nullable starts inductionHypothesis =>
      have reductions := conflictFree.reductions_of_nullable nullable viable
        split (.inl starts)
      refine .of_reductions reductions
        (inductionHypothesis (viable.advance ?_) (drop_advance split))
      exact next?_eq_some_iff.mpr ⟨_, split⟩

/-- Reductions end where only symbols that yield nothing are left of an item
that settles. -/
theorem terminates_of_settles
    (conflictFree : rules.ConflictFree table)
    (reaches : rules.Reaches stack item symbol)
    (settles : rules.Settles table symbol stack item)
    (split : (rules.body item.production).drop item.dot = rest)
    (nullable : rules.grammar.Nullable rest) :
    rules.Terminates table symbol stack := by
  have splitAll : (rules.body item.production).drop item.dot = rest ++ [] := by
    rw [split, List.append_nil]
  have reductions := conflictFree.reductions_of_nullable nullable
    reaches.viable splitAll (.inr ⟨.nil, reaches⟩)
  obtain ⟨complete, same, asksNothing, reachesEnd⟩ :=
    reaches.exists_complete split
  refine .of_reductions reductions ?_
  rcases settles with isAccept | ⟨below, head, isStack, heads, terminates⟩
  · have acts := conflictFree.actionAfter_of_reaches reachesEnd asksNothing
    rw [same, isAccept, reduceAction, if_pos rfl] at acts
    refine .of_action fun production => ?_
    simp [acts]
  · have isBody : stack ++ rest = below ++ rules.body complete.production := by
      rw [isStack, same, List.append_assoc, ← split, List.take_append_drop]
    rw [← same] at heads
    rw [isBody] at reachesEnd ⊢
    exact .of_reduces (conflictFree.reduces_of_complete reachesEnd asksNothing
      (ne_accept_of_head? heads) heads) terminates

/-- Every item that the next symbol may follow settles. -/
theorem settles_of_reaches
    (conflictFree : rules.ConflictFree table)
    (reaches : rules.Reaches stack item symbol) :
    rules.Settles table symbol stack item := by
  induction reaches with
  | start => exact .inl rfl
  | advance _ next inductionHypothesis => exact inductionHypothesis.advance next
  | @arises stack item production symbol viable called arises =>
      obtain ⟨head, next, -, heads⟩ := mem_predicted.mp called
      obtain ⟨rest, split⟩ := next?_eq_some_iff.mp next
      have starts := (arises_iff split).mp arises
      rw [conflictFree.override?_eq_none] at starts
      exact .inr ⟨stack, head, by simp, heads, conflictFree.terminates_of_starts
        starts (viable.advance next) (drop_advance split)⟩
  | @inherits stack item production symbol reaches called inherits
      inductionHypothesis =>
      obtain ⟨head, next, -, heads⟩ := mem_predicted.mp called
      obtain ⟨rest, split⟩ := next?_eq_some_iff.mp next
      obtain ⟨-, nullable⟩ := (inherits_iff split).mp inherits
      exact .inr ⟨stack, head, by simp, heads,
        conflictFree.terminates_of_settles (reaches.advance next)
          (inductionHypothesis.advance next) (drop_advance split) nullable⟩

/-- Reductions end where an item is complete that the next symbol may
follow. -/
theorem terminates_of_reaches
    (conflictFree : rules.ConflictFree table)
    (reaches : rules.Reaches stack item symbol)
    (complete : rules.next? item = none) :
    rules.Terminates table symbol stack := by
  have split : (rules.body item.production).drop item.dot = [] :=
    List.drop_eq_nil_iff.mpr (List.getElem?_eq_none_iff.mp complete)
  exact conflictFree.terminates_of_settles reaches
    (conflictFree.settles_of_reaches reaches) split .nil

end ConflictFree

/-! ## Where one symbol takes the place of another -/

/-- A production replaces one symbol, together with symbols that yield nothing,
if the next symbol may follow. -/
inductive Wraps (rules : Rules) (following : SymbolId) :
    SymbolId → SymbolId → Prop
  | mk
      {symbols rest : List SymbolId}
      {production : ProductionId}
      {inner head : SymbolId}
      (reaches : rules.Reaches symbols ⟨production, 0⟩ following)
      (isBody : rules.body production = inner :: rest)
      (nullable : rules.grammar.Nullable rest)
      (heads : rules.head? production = some head) :
      Wraps rules following inner head

theorem Wraps.isNonTerminal
    (wellFormed : rules.WellFormed)
    {inner outer : SymbolId}
    (wraps : rules.Wraps symbol inner outer) :
    rules.grammar.isNonTerminal outer = true := by
  obtain ⟨-, -, -, heads⟩ := wraps
  obtain ⟨rule, found, rfl⟩ := Option.map_eq_some_iff.mp heads
  exact wellFormed.grammar.heads rule (Array.mem_of_getElem? found)

namespace ConflictFree

/-- A production replaces its first symbol wherever the next symbol may
follow. -/
theorem reductions_of_wrapping
    (conflictFree : rules.ConflictFree table)
    {production : ProductionId}
    {inner head : SymbolId}
    (reaches : rules.Reaches stack ⟨production, 0⟩ symbol)
    (isBody : rules.body production = inner :: rest)
    (nullable : rules.grammar.Nullable rest)
    (heads : rules.head? production = some head) :
    Relation.TransGen (rules.Reduces table symbol) (stack ++ [inner])
      (stack ++ [head]) := by
  have next : rules.next? ⟨production, 0⟩ = some inner :=
    next?_eq_some_iff.mpr ⟨rest, by simpa using isBody⟩
  have moved := reaches.advance next
  have split : (rules.body production).drop 1 = rest ++ [] := by
    rw [isBody, List.append_nil]
    rfl
  have reductions := conflictFree.reductions_of_nullable nullable
    moved.viable split (.inr ⟨.nil, moved⟩)
  have reduces := conflictFree.reduces_of_reaches reaches
    (ne_accept_of_head? heads) heads
  rw [isBody] at reduces
  rw [List.append_assoc] at reductions
  exact .tail' reductions reduces

/-- Symbols that take each other's places do so by reductions after the same
symbols. -/
theorem reductions_of_wraps
    (conflictFree : rules.ConflictFree table)
    {inner outer : SymbolId}
    (wraps : Relation.TransGen (rules.Wraps symbol) inner outer) :
    ∃ (below rest : List SymbolId) (item : Item),
      rules.Reaches below item symbol ∧
        (rules.body item.production).drop item.dot = inner :: rest ∧
        rules.grammar.Nullable rest ∧
        rules.Terminates table symbol (below ++ [outer]) ∧
        Relation.TransGen (rules.Reduces table symbol) (below ++ [inner])
          (below ++ [outer]) := by
  induction wraps using Relation.TransGen.head_induction_on with
  | single wraps =>
      obtain @⟨below, rest, production, _, _, reaches, isBody, nullable,
        heads⟩ := wraps
      refine ⟨below, rest, ⟨production, 0⟩, reaches, by simpa using isBody,
        nullable, ?_,
        conflictFree.reductions_of_wrapping reaches isBody nullable heads⟩
      rcases conflictFree.settles_of_reaches reaches with
        isAccept | ⟨below, head, isBelow, isHead, terminates⟩
      · exact absurd isAccept (ne_accept_of_head? heads)
      · obtain rfl := Option.some.inj (isHead.symm.trans heads)
        rw [List.take_zero, List.append_nil] at isBelow
        exact isBelow ▸ terminates
  | head wraps _ inductionHypothesis =>
      obtain ⟨below, outerRest, item, reaches, split, restNullable,
        terminates, onward⟩ := inductionHypothesis
      have isNonTerminal := wraps.isNonTerminal conflictFree.wellFormed
      obtain @⟨_, rest, production, _, _, _, isBody, nullable, heads⟩ :=
        wraps
      have called : production ∈ rules.predicted item := mem_predicted.mpr
        ⟨_, next?_eq_some_iff.mpr ⟨_, split⟩, isNonTerminal, heads⟩
      have reachesInner : rules.Reaches below ⟨production, 0⟩ symbol :=
        .inherits reaches called ((inherits_iff split).mpr
          ⟨conflictFree.override?_eq_none _ _, restNullable⟩)
      exact ⟨below, rest, ⟨production, 0⟩, reachesInner,
        by simpa using isBody, nullable, terminates,
        (conflictFree.reductions_of_wrapping reachesInner isBody nullable
          heads).trans onward⟩

/-- No symbol takes its own place. -/
theorem not_wraps_self
    (conflictFree : rules.ConflictFree table)
    (inner : SymbolId) :
    ¬ Relation.TransGen (rules.Wraps symbol) inner inner := by
  intro cycle
  obtain ⟨below, -, -, -, -, -, terminates, reductions⟩ :=
    conflictFree.reductions_of_wraps cycle
  exact terminates.not_cycle reductions

end ConflictFree

open Classical in
/-- A step of a relation that does not lead back leaves fewer symbols to come
to. -/
theorem card_transGen_lt
    {relation : SymbolId → SymbolId → Prop}
    {inner outer size : Nat}
    (related : relation inner outer)
    (known : outer < size)
    (acyclic : ¬ Relation.TransGen relation outer outer) :
    ((Finset.range size).filter
        fun other => Relation.TransGen relation outer other).card <
      ((Finset.range size).filter
        fun other => Relation.TransGen relation inner other).card := by
  refine Finset.card_lt_card ((Finset.ssubset_iff_of_subset ?_).mpr
    ⟨outer, ?_, ?_⟩)
  · intro other member
    obtain ⟨inside, onward⟩ := Finset.mem_filter.mp member
    exact Finset.mem_filter.mpr ⟨inside, .head related onward⟩
  · exact Finset.mem_filter.mpr ⟨Finset.mem_range.mpr known, .single related⟩
  · exact fun member => acyclic (Finset.mem_filter.mp member).2

open Classical in
/-- How many symbols can take the place of a symbol. -/
noncomputable def wrappers (rules : Rules) (following inner : SymbolId) : Nat :=
  ((Finset.range rules.grammar.symbols.size).filter fun outer =>
    Relation.TransGen (rules.Wraps following) inner outer).card

/-- A symbol that takes the place of another has fewer that take its own. -/
theorem ConflictFree.wrappers_lt
    (conflictFree : rules.ConflictFree table)
    {inner outer : SymbolId}
    (wraps : rules.Wraps symbol inner outer) :
    rules.wrappers symbol outer < rules.wrappers symbol inner :=
  card_transGen_lt wraps
    (Grammar.lt_size_of_isNonTerminal
      (wraps.isNonTerminal conflictFree.wellFormed))
    (conflictFree.not_wraps_self outer)

/-! ## Where the next symbol may come elsewhere -/

/-- Where a table reduces, the next symbol may follow after some symbols that
lead to the same state. -/
theorem ConflictFree.exists_reaches_of_actionAfter
    (conflictFree : rules.ConflictFree table)
    {production : ProductionId}
    (acts : rules.actionAfter table stack symbol = some (.reduce production)) :
    ∃ elsewhere item, item.production = production ∧
      rules.next? item = none ∧
      rules.stateAfter elsewhere = rules.stateAfter stack ∧
      rules.Viable stack item ∧ rules.Reaches elsewhere item symbol := by
  obtain ⟨state, leads, stateActs⟩ := Option.bind_eq_some_iff.mp acts
  obtain ⟨⟨kernel, found⟩, offers⟩ :=
    offers_of_action conflictFree.built stateActs
  have inside := (Array.getElem?_eq_some_iff.mp found).1
  generalize isAction : Action.reduce production = action at offers
  cases offers with
  | shift offered => simp at isAction
  | @reduce other offered =>
      obtain ⟨item, looks, complete, rfl⟩ := mem_reduces_candidatesIn.mp offered
      obtain ⟨elsewhere, leadsThere, reaches⟩ :=
        looks.exists_reaches conflictFree.wellFormed inside
      have viable := viable_of_mem_closure leads found (looks.mem_closure found)
      refine ⟨elsewhere, item, ?_, complete, leadsThere.trans leads.symm,
        viable, reaches⟩
      unfold reduceAction at isAction
      split at isAction
      · simp at isAction
      · exact (Action.reduce.inj isAction).symm

/-- Symbols that lead to the same state lead to the same actions. -/
theorem actionAfter_append_congr
    {elsewhere : List SymbolId}
    (same : rules.stateAfter elsewhere = rules.stateAfter stack)
    (added : List SymbolId) :
    rules.actionAfter table (elsewhere ++ added) symbol =
      rules.actionAfter table (stack ++ added) symbol := by
  unfold actionAfter
  rw [stateAfter_append, stateAfter_append, same]

/-- A reduction takes symbols away that were there before others that yield
nothing were recognised. -/
inductive Touches (rules : Rules) (table : Table) (symbol : SymbolId)
    (stack : List SymbolId) : List SymbolId → Prop
  | mk
      {added below : List SymbolId}
      {production : ProductionId}
      {head : SymbolId}
      (nullable : rules.grammar.Nullable added)
      (acts : rules.actionAfter table (stack ++ added) symbol =
        some (.reduce production))
      (heads : rules.head? production = some head)
      (isStack : stack ++ added = below ++ rules.body production)
      (shorter : below.length < stack.length) :
      Touches rules table symbol stack (below ++ [head])

/-- Reductions end if they do elsewhere and if those that touch the symbols
they started with end. -/
theorem Terminates.of_elsewhere
    {elsewhere added : List SymbolId}
    (terminates : rules.Terminates table symbol (elsewhere ++ added))
    (same : rules.stateAfter elsewhere = rules.stateAfter stack)
    (nullable : rules.grammar.Nullable added)
    (touching : ∀ next, rules.Touches table symbol stack next →
      rules.Terminates table symbol next) :
    rules.Terminates table symbol (stack ++ added) := by
  generalize isStart : elsewhere ++ added = start at terminates
  induction terminates generalizing added with
  | intro start _ inductionHypothesis =>
      refine .intro _ fun next reduces => ?_
      generalize isStack : stack ++ added = whole at reduces
      cases reduces with
      | @mk production head below acts heads =>
          rw [← isStack] at acts
          by_cases shorter : below.length < stack.length
          · exact touching _ (.mk nullable acts heads isStack shorter)
          -- The reduction leaves the symbols it started with as they are.
          obtain ⟨kept, rfl⟩ : stack <+: below :=
            List.prefix_of_prefix_length_le (List.prefix_append _ _)
              ⟨_, isStack.symm⟩ (Nat.le_of_not_lt shorter)
          rw [List.append_assoc] at isStack
          obtain rfl := List.append_cancel_left isStack
          obtain ⟨keptNullable, bodyNullable⟩ := nullable.split
          obtain ⟨rule, found, rfl⟩ := Option.map_eq_some_iff.mp heads
          rw [(body_of_rule found).2] at bodyNullable
          have member := Array.mem_of_getElem? found
          have nullableAfter : rules.grammar.Nullable (kept ++ [rule.head]) :=
            keptNullable.append (.production member bodyNullable .nil)
          rw [← actionAfter_append_congr same, ← List.append_assoc] at acts
          have reducesThere := Reduces.mk acts heads
          rw [List.append_assoc, isStart, List.append_assoc] at reducesThere
          rw [List.append_assoc]
          exact inductionHypothesis _ reducesThere nullableAfter rfl

namespace ConflictFree

/-- Where a table reduces, the body of the production is on top of the stack,
and its head leads to a state again. -/
theorem reduction_of_actionAfter
    (conflictFree : rules.ConflictFree table)
    {production : ProductionId}
    (acts : rules.actionAfter table stack symbol = some (.reduce production)) :
    ∃ below head target, stack = below ++ rules.body production ∧
      rules.head? production = some head ∧
      rules.stateAfter (below ++ [head]) = some target := by
  have notAccept : production ≠ rules.accept := by
    obtain ⟨state, -, stateActs⟩ := Option.bind_eq_some_iff.mp acts
    exact (mem_closure_of_action_reduce conflictFree.built stateActs).1
  obtain ⟨-, item, rfl, complete, -, viable, -⟩ :=
    conflictFree.exists_reaches_of_actionAfter acts
  obtain ⟨below, isStack, starts⟩ := viable.origin
  rw [List.take_of_length_le (List.getElem?_eq_none_iff.mp complete)] at isStack
  obtain ⟨caller, -, called⟩ := starts.exists_caller notAccept
  obtain ⟨head, -, -, heads⟩ := mem_predicted.mp called
  obtain ⟨target, leads⟩ := starts.exists_stateAfter_head notAccept heads
  exact ⟨below, head, target, isStack, heads, leads⟩

/-- A reduction that leaves all but one of the symbols it started with puts a
symbol in the place of the last one. -/
theorem wraps_of_reduce
    (conflictFree : rules.ConflictFree table)
    {production : ProductionId}
    {added : List SymbolId}
    {inner head : SymbolId}
    (nullable : rules.grammar.Nullable added)
    (acts : rules.actionAfter table stack symbol = some (.reduce production))
    (heads : rules.head? production = some head)
    (isBody : rules.body production = inner :: added) :
    rules.Wraps symbol inner head := by
  obtain ⟨elsewhere, item, rfl, -, -, -, reaches⟩ :=
    conflictFree.exists_reaches_of_actionAfter acts
  obtain ⟨before, -, starts⟩ := reaches.origin
  exact .mk starts isBody nullable heads

/-- Reductions end if those that touch the symbols they started with end. -/
theorem terminates_of_touching
    (conflictFree : rules.ConflictFree table)
    (touching : ∀ next, rules.Touches table symbol stack next →
      rules.Terminates table symbol next) :
    rules.Terminates table symbol stack := by
  by_cases reducing : ∃ production,
      rules.actionAfter table stack symbol = some (.reduce production)
  · obtain ⟨production, acts⟩ := reducing
    obtain ⟨elsewhere, item, -, complete, same, -, reaches⟩ :=
      conflictFree.exists_reaches_of_actionAfter acts
    have terminates := conflictFree.terminates_of_reaches reaches complete
    rw [← List.append_nil elsewhere] at terminates
    have mimics := terminates.of_elsewhere same .nil touching
    rwa [List.append_nil] at mimics
  · exact .of_action fun production acts => reducing ⟨production, acts⟩

/-- After a reduction the symbols lead to a state again. -/
theorem exists_stateAfter_of_touches
    (conflictFree : rules.ConflictFree table)
    (touches : rules.Touches table symbol stack next) :
    ∃ state, rules.stateAfter next = some state := by
  obtain @⟨added, below, production, head, -, acts, heads, isStack, -⟩ :=
    touches
  rw [isStack] at acts
  obtain ⟨_, _, state, isBelow, isHead, leads⟩ :=
    conflictFree.reduction_of_actionAfter acts
  obtain rfl := List.append_cancel_right isBelow
  obtain rfl := Option.some.inj (heads.symm.trans isHead)
  exact ⟨state, leads⟩

end ConflictFree

/-- The size of a stack and then a number for its last symbol. -/
def rank (measure : SymbolId → Nat) (stack : List SymbolId) : Nat ×ₗ Nat :=
  toLex (stack.length, (stack.getLast?.map measure).getD 0)

/-- A reduction that touches the stack leaves fewer symbols, or as many with
another in the place of the last one. -/
theorem ConflictFree.rank_lt_of_touches
    (conflictFree : rules.ConflictFree table)
    {measure : SymbolId → Nat}
    (decreases : ∀ {inner outer}, rules.Wraps symbol inner outer →
      measure outer < measure inner)
    (touches : rules.Touches table symbol stack next) :
    rank measure next < rank measure stack := by
  obtain @⟨added, below, production, head, nullable, acts, heads, isStack,
    shorter⟩ := touches
  rcases Nat.lt_or_eq_of_le shorter with many | one
  · refine Prod.Lex.toLex_lt_toLex.mpr (.inl ?_)
    rw [List.length_append]
    exact many
  · obtain ⟨last, rfl⟩ : below <+: stack :=
      List.prefix_of_prefix_length_le ⟨_, isStack.symm⟩
        (List.prefix_append _ _) (Nat.le_of_lt shorter)
    rw [List.length_append] at one
    obtain ⟨inner, rfl⟩ :=
      List.length_eq_one_iff.mp (Nat.add_left_cancel one).symm
    rw [List.append_assoc] at isStack
    have isBody := (List.append_cancel_left isStack).symm
    refine Prod.Lex.toLex_lt_toLex.mpr (.inr ⟨by simp, ?_⟩)
    rw [List.getLast?_concat, List.getLast?_concat]
    exact decreases (conflictFree.wraps_of_reduce nullable acts heads isBody)

/-- Whatever the next symbol is, reductions end. -/
theorem ConflictFree.terminates_of_stateAfter
    (conflictFree : rules.ConflictFree table)
    {state : Nat}
    (leads : rules.stateAfter stack = some state) :
    rules.Terminates table symbol stack := by
  induction stack using
    (InvImage.wf (rank (rules.wrappers symbol)) wellFounded_lt).induction
    generalizing state with
  | _ stack lower =>
      refine conflictFree.terminates_of_touching fun next touches => ?_
      obtain ⟨_, leadsNext⟩ := conflictFree.exists_stateAfter_of_touches touches
      exact lower next
        (conflictFree.rank_lt_of_touches conflictFree.wrappers_lt touches)
        leadsNext

end Rules
end Table
end ParserGenerator
