import Mathlib
import ParserGenerator.Proofs.Grammar.Declaring
import ParserGenerator.Proofs.Table.Viable

/-!
# The lookaheads of a table

The symbols that a table records for its kernel items are exactly those that
may follow the items along the sequences of symbols that lead to their states.
A symbol may follow an item that is called for even if nothing is known to
follow the item that calls for it, so the items have to be followed by
themselves and not only together with a symbol that comes after them.
-/

namespace ParserGenerator
namespace Table
namespace Rules

variable {rules : Rules} {resolver : Option Resolver} {table : Table}

/-- The transitions of a table lead where those between the kernels lead. -/
theorem follow_of_construct
    (built : (rules.construct resolver).result = .ok table)
    (symbols : List SymbolId) :
    table.follow 0 symbols = rules.stateAfter symbols := by
  suffices general : ∀ state,
      table.follow state symbols =
        symbols.foldlM rules.kernelGraph.goto state from
    general 0
  induction symbols with
  | nil =>
      intro state
      rfl
  | cons symbol rest inductionHypothesis =>
      intro state
      rw [follow, goto_of_construct built, List.foldlM_cons]
      cases rules.kernelGraph.goto state symbol with
      | none => rfl
      | some target => exact inductionHypothesis target

/-- An item has one set of lookaheads in a kernel. -/
theorem lookaheads_unique
    {state : Nat}
    {item : Item}
    {symbols others : SymbolSet}
    (member : (item, symbols) ∈ rules.lookaheadKernel state)
    (other : (item, others) ∈ rules.lookaheadKernel state) :
    symbols = others := by
  obtain ⟨index, isItem, -⟩ := mem_lookaheadKernel member
  obtain ⟨kernel, found, -⟩ := Option.bind_eq_some_iff.mp isItem
  have ordered := (rules.explored_kernelGraph.isKernel state kernel found).ordered
  have distinct : ((rules.lookaheadKernel state).map Prod.fst).Nodup := by
    rw [map_lookaheadKernel found]
    exact ordered.imp Item.Precedes.ne
  have same := List.inj_on_of_nodup_map distinct member other rfl
  exact (Prod.mk.inj same).2

/-- The closure of a state adds no lookaheads to its kernel items. -/
theorem mem_of_looks
    {state : Nat}
    {item : Item}
    {symbols : SymbolSet}
    {symbol : SymbolId}
    (member : (item, symbols) ∈ rules.lookaheadKernel state)
    (looks : rules.Looks state item symbol) :
    symbol ∈ symbols := by
  obtain ⟨others, inClosure, found⟩ := looks
  rcases Analysis.mem_closure.mp inClosure with
    inKernel | ⟨production, called, same⟩
  · rwa [lookaheads_unique member inKernel]
  · -- What is called for stands at its start, as only the goal does in a kernel.
    obtain ⟨rfl, -⟩ := Prod.mk.inj same
    obtain ⟨index, isItem, -⟩ := mem_lookaheadKernel member
    obtain ⟨kernel, isKernel, atIndex⟩ := Option.bind_eq_some_iff.mp isItem
    have inKernel := List.mem_of_getElem? atIndex
    rcases (rules.explored_kernelGraph.isKernel state kernel isKernel).moved with
      isStart | dots
    · rw [isStart, startKernel, List.mem_singleton] at inKernel
      have isAccept := congrArg Item.production inKernel
      exact absurd isAccept (Nat.ne_of_lt (lt_accept_of_mem_calledFor called))
    · exact absurd (dots _ inKernel) (Nat.lt_irrefl 0)

end Rules

/-- A symbol is recorded for a kernel item of a state if and only if it may
follow the item along some symbols that lead to the state. -/
theorem mem_lookaheads_iff_reaches
    (grammar : Grammar)
    (goal : SymbolId)
    (resolver : Option Resolver)
    (table : Table)
    (declared : grammar.Declared)
    (built : (construct grammar goal resolver).result = .ok table)
    (state : Nat)
    (entry : ParserState)
    (found : table.states[state]? = some entry)
    (item : Item)
    (symbols : SymbolSet)
    (member : (item, symbols) ∈ entry.kernel)
    (symbol : SymbolId) :
    symbol ∈ symbols ↔
      ∃ path, table.follow 0 path = some state ∧
        Rules.Reaches ⟨grammar, goal⟩ path item symbol := by
  have isBuilt := Rules.construct_of_ok built
  have wellFormed : Rules.WellFormed ⟨grammar, goal⟩ :=
    ⟨declared.wellFormed, Rules.goal_of_construct built⟩
  rw [((Rules.states_of_construct isBuilt).2 state entry found).1] at member
  constructor
  · intro inSymbols
    obtain ⟨index, isItem, isRow⟩ := Rules.mem_lookaheadKernel member
    obtain ⟨path, leads, reaches⟩ :=
      Rules.exists_reaches_of_mem_slotSets wellFormed ⟨state, index⟩ symbol
        (isRow ▸ inSymbols) item isItem
    exact ⟨path, (Rules.follow_of_construct isBuilt path).trans leads, reaches⟩
  · rintro ⟨path, leads, reaches⟩
    rw [Rules.follow_of_construct isBuilt] at leads
    exact Rules.mem_of_looks member (reaches.looks wellFormed leads)

/-! ## Items that nothing follows -/

namespace Rules

/-- A symbol follows what an item calls for, where `following` follows the
item itself. -/
def Passes (rules : Rules) (item : Item) (following symbol : SymbolId) :
    Prop :=
  rules.Arises item symbol ∨ rules.Inherits item ∧ symbol = following

/-- The items that symbols lead to, where an item is reached only together with
a symbol that follows it. -/
inductive Tracks (rules : Rules) : List SymbolId → Item → SymbolId → Prop
  | start : Tracks rules [] ⟨rules.accept, 0⟩ Grammar.endSymbol
  | advance
      {symbols : List SymbolId}
      {item : Item}
      {symbol following : SymbolId}
      (tracks : Tracks rules symbols item following)
      (next : rules.next? item = some symbol) :
      Tracks rules (symbols ++ [symbol]) item.advance following
  | predict
      {symbols : List SymbolId}
      {item : Item}
      {production : ProductionId}
      {following symbol : SymbolId}
      (tracks : Tracks rules symbols item following)
      (called : production ∈ rules.predicted item)
      (passes : rules.Passes item following symbol) :
      Tracks rules symbols ⟨production, 0⟩ symbol

end Rules

/-- The grammar of `z t t ...` followed by a non-terminal that has no end. -/
def endlessGrammar : Grammar :=
  ⟨false,
    #[⟨"$end", .endOfSource⟩, ⟨"$nl", .lineBreak⟩, ⟨"$nonl", .noLineBreak⟩,
      ⟨"z", .terminal (.text "z") ⟨false, false⟩⟩,
      ⟨"t", .terminal (.text "t") ⟨false, false⟩⟩,
      ⟨"y", .terminal (.text "y") ⟨false, false⟩⟩,
      ⟨"S", .nonTerminal⟩, ⟨"B", .nonTerminal⟩, ⟨"Y", .nonTerminal⟩],
    #[⟨"S:1", 6, [7, 8], [], [], []⟩, ⟨"B:1", 7, [7, 4], [], [], []⟩,
      ⟨"B:2", 7, [3], [], [], []⟩, ⟨"Y:1", 8, [8, 5], [], [], []⟩]⟩

theorem declared_endlessGrammar : endlessGrammar.Declared :=
  (Grammar.Declared.empty false).declareAll
    [.terminal "z" (.text "z") ⟨false, false⟩,
      .terminal "t" (.text "t") ⟨false, false⟩,
      .terminal "y" (.text "y") ⟨false, false⟩,
      .nonTerminal "S", .nonTerminal "B", .nonTerminal "Y",
      .rule 6 "S:1" "B Y", .rule 7 "B:1" "B t", .rule 7 "B:2" "z",
      .rule 8 "Y:1" "Y y"]
    (by cbv)

/-- The table of the grammar with a non-terminal that has no end. -/
def endlessTable : Table :=
  ⟨#[
    ⟨[(⟨4, 0⟩, [0])], [(3, 1), (6, 2), (7, 3)], [(3, .shift 1)], none⟩,
    ⟨[(⟨2, 1⟩, [4])], [], [(4, .reduce 2)], some 3⟩,
    ⟨[(⟨4, 1⟩, [0])], [], [(0, .accept)], some 6⟩,
    ⟨[(⟨0, 1⟩, [0]), (⟨1, 1⟩, [4])], [(4, 4), (8, 5)], [(4, .shift 4)],
      some 7⟩,
    ⟨[(⟨1, 2⟩, [4])], [], [(4, .reduce 1)], some 4⟩,
    ⟨[(⟨0, 2⟩, [0]), (⟨3, 1⟩, [0, 5])], [(5, 6)],
      [(0, .reduce 0), (5, .shift 6)], some 8⟩,
    ⟨[(⟨3, 2⟩, [0, 5])], [], [(0, .reduce 3), (5, .reduce 3)], some 5⟩],
    6, 4⟩

theorem construct_endlessGrammar :
    (construct endlessGrammar 6 none).result = .ok endlessTable :=
  Grammar.eq_ok_of_toOption (by decide +kernel)

/-- What yields nothing does not hold the non-terminal without an end. -/
theorem notMem_of_nullable_endlessGrammar
    {symbols : List SymbolId}
    (nullable : endlessGrammar.Nullable symbols) :
    8 ∉ symbols := by
  induction nullable with
  | nil => simp
  | production member _ _ bodyHypothesis restHypothesis =>
      simp only [endlessGrammar, List.mem_toArray, List.mem_cons,
        List.not_mem_nil, or_false] at member
      rcases member with rfl | rfl | rfl | rfl <;> simp_all

/-- Nothing comes first in the non-terminal without an end. -/
theorem head_ne_of_starts_endlessGrammar
    {symbols : List SymbolId}
    {symbol : SymbolId}
    (starts : endlessGrammar.Starts symbols symbol) :
    symbols.head? ≠ some 8 := by
  induction starts with
  | here isTerminal =>
      rintro isEndless
      obtain rfl := Option.some.inj isEndless
      exact absurd isTerminal (by decide)
  | inside member _ inductionHypothesis =>
      simp only [endlessGrammar, List.mem_toArray, List.mem_cons,
        List.not_mem_nil, or_false] at member
      rcases member with rfl | rfl | rfl | rfl <;> simp_all
  | later nullable _ _ =>
      have other := notMem_of_nullable_endlessGrammar nullable
      simpa using Ne.symm (List.ne_of_not_mem_cons other)

/-- Nothing follows what comes before the non-terminal without an end. -/
theorem Rules.not_passes_endlessGrammar (following symbol : SymbolId) :
    ¬ Rules.Passes ⟨endlessGrammar, 6⟩ ⟨0, 0⟩ following symbol := by
  rintro (⟨called, rest, split, starts⟩ | ⟨⟨called, rest, split, -, nullable⟩, -⟩)
  · obtain ⟨rfl, rfl⟩ := List.cons.inj split
    exact head_ne_of_starts_endlessGrammar starts rfl
  · obtain ⟨rfl, rfl⟩ := List.cons.inj split
    exact notMem_of_nullable_endlessGrammar nullable (by decide)

/-- What comes before the non-terminal without an end is never reached together
with a symbol that follows it. -/
theorem Rules.Tracks.production_endlessGrammar
    {symbols : List SymbolId}
    {item : Item}
    {symbol : SymbolId}
    (tracks : Rules.Tracks ⟨endlessGrammar, 6⟩ symbols item symbol) :
    item.production = 0 ∨ item.production = 3 ∨ item.production = 4 := by
  induction tracks with
  | start => exact .inr (.inr rfl)
  | advance _ _ inductionHypothesis => exact inductionHypothesis
  | @predict _ item _ following symbol _ called passes inductionHypothesis =>
      obtain ⟨number, dot⟩ := item
      rcases inductionHypothesis with rfl | rfl | rfl
      · match dot with
        | 0 => exact absurd passes (not_passes_endlessGrammar following symbol)
        | 1 => exact .inr (.inl (List.mem_singleton.mp called))
        | _ + 2 => exact absurd called List.not_mem_nil
      · match dot with
        | 0 => exact .inr (.inl (List.mem_singleton.mp called))
        | 1 => exact absurd called List.not_mem_nil
        | _ + 2 => exact absurd called List.not_mem_nil
      · match dot with
        | 0 => exact .inl (List.mem_singleton.mp called)
        | _ + 1 => exact absurd called List.not_mem_nil

/-- A symbol that is recorded although no symbol follows the item that brings
it about. -/
theorem exists_lookahead_not_tracks :
    endlessGrammar.Declared ∧
      (construct endlessGrammar 6 none).result = .ok endlessTable ∧
      ∃ entry, endlessTable.states[3]? = some entry ∧
        (⟨1, 1⟩, [4]) ∈ entry.kernel ∧
        ¬ ∃ path, endlessTable.follow 0 path = some 3 ∧
          Rules.Tracks ⟨endlessGrammar, 6⟩ path ⟨1, 1⟩ 4 := by
  refine ⟨declared_endlessGrammar, construct_endlessGrammar, _, rfl,
    by decide, ?_⟩
  rintro ⟨path, -, tracks⟩
  exact absurd tracks.production_endlessGrammar (by decide)

theorem mem_lookaheads_iff_reaches_endless :
    endlessGrammar.Declared ∧
      (construct endlessGrammar 6 none).result = .ok endlessTable ∧
      ∃ path, endlessTable.follow 0 path = some 3 ∧
        Rules.Reaches ⟨endlessGrammar, 6⟩ path ⟨1, 1⟩ 4 := by
  refine ⟨declared_endlessGrammar, construct_endlessGrammar, ?_⟩
  apply (mem_lookaheads_iff_reaches endlessGrammar 6 none endlessTable
    declared_endlessGrammar construct_endlessGrammar 3 _ rfl ⟨1, 1⟩ [4]
    (by decide) 4).mp
  exact List.mem_singleton_self 4

end Table
end ParserGenerator
