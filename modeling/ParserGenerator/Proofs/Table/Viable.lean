import ParserGenerator.Proofs.Table.Following

/-!
# Items along a sequence of symbols

The items that a sequence of symbols leads to, without and with a symbol that
may follow them. The closure of the state that the symbols lead to has exactly
the former. The lookaheads of the state are the symbols of the latter, over all
sequences that lead to it.
-/

namespace ParserGenerator
namespace Table
namespace Rules

/-- The state at the end of the transitions over some symbols. -/
def stateAfter (rules : Rules) (symbols : List SymbolId) : Option Nat :=
  symbols.foldlM rules.kernelGraph.goto 0

/-- The items that symbols lead to. -/
inductive Viable (rules : Rules) : List SymbolId → Item → Prop
  | start : Viable rules [] ⟨rules.accept, 0⟩
  | advance
      {symbols : List SymbolId}
      {item : Item}
      {symbol : SymbolId}
      (viable : Viable rules symbols item)
      (next : rules.next? item = some symbol) :
      Viable rules (symbols ++ [symbol]) item.advance
  | predict
      {symbols : List SymbolId}
      {item : Item}
      {production : ProductionId}
      (viable : Viable rules symbols item)
      (called : production ∈ rules.predicted item) :
      Viable rules symbols ⟨production, 0⟩

/-- The items that symbols lead to, with a symbol that may follow them. -/
inductive Reaches (rules : Rules) : List SymbolId → Item → SymbolId → Prop
  | start : Reaches rules [] ⟨rules.accept, 0⟩ Grammar.endSymbol
  | advance
      {symbols : List SymbolId}
      {item : Item}
      {symbol following : SymbolId}
      (reaches : Reaches rules symbols item following)
      (next : rules.next? item = some symbol) :
      Reaches rules (symbols ++ [symbol]) item.advance following
  | arises
      {symbols : List SymbolId}
      {item : Item}
      {production : ProductionId}
      {following : SymbolId}
      (viable : Viable rules symbols item)
      (called : production ∈ rules.predicted item)
      (arises : rules.Arises item following) :
      Reaches rules symbols ⟨production, 0⟩ following
  | inherits
      {symbols : List SymbolId}
      {item : Item}
      {production : ProductionId}
      {following : SymbolId}
      (reaches : Reaches rules symbols item following)
      (called : production ∈ rules.predicted item)
      (inherits : rules.Inherits item) :
      Reaches rules symbols ⟨production, 0⟩ following

variable {rules : Rules} {symbols : List SymbolId} {item : Item}
  {symbol : SymbolId} {state : Nat} {kernel : List Item}

theorem Reaches.viable
    (reaches : rules.Reaches symbols item symbol) :
    rules.Viable symbols item := by
  induction reaches with
  | start => exact .start
  | advance _ next inductionHypothesis => exact .advance inductionHypothesis next
  | arises viable called _ => exact .predict viable called
  | inherits _ called _ inductionHypothesis =>
      exact .predict inductionHypothesis called

/-! ## States -/

@[simp] theorem stateAfter_nil (rules : Rules) :
    rules.stateAfter [] = some 0 := rfl

theorem stateAfter_append (symbols others : List SymbolId) :
    rules.stateAfter (symbols ++ others) =
      (rules.stateAfter symbols).bind
        (others.foldlM rules.kernelGraph.goto) := by
  unfold stateAfter
  rw [List.foldlM_append, Option.bind_eq_bind]

theorem stateAfter_concat (symbols : List SymbolId) (symbol : SymbolId) :
    rules.stateAfter (symbols ++ [symbol]) =
      (rules.stateAfter symbols).bind
        (rules.kernelGraph.goto · symbol) := by
  rw [stateAfter_append]
  simp only [List.foldlM_cons, List.foldlM_nil, bind_pure]

/-- One symbol more leads over a transition of the state before it. -/
theorem stateAfter_concat_eq_goto
    (leads : rules.stateAfter symbols = some state)
    (symbol : SymbolId) :
    rules.stateAfter (symbols ++ [symbol]) =
      rules.kernelGraph.goto state symbol := by
  rw [stateAfter_concat, leads, Option.bind_some]

theorem exists_kernel_of_stateAfter
    (leads : rules.stateAfter symbols = some state) :
    ∃ kernel, rules.kernelGraph.kernels[state]? = some kernel := by
  induction symbols using List.reverseRecOn generalizing state with
  | nil =>
      obtain rfl := Option.some.inj leads
      exact ⟨_, rules.explored_kernelGraph.first⟩
  | append_singleton symbols symbol inductionHypothesis =>
      rw [stateAfter_concat] at leads
      obtain ⟨before, leadsBefore, edge⟩ := Option.bind_eq_some_iff.mp leads
      obtain ⟨kernel, found⟩ := inductionHypothesis leadsBefore
      exact ⟨_, (kernel_of_goto found edge).1⟩

/-- Every state is reached over some symbols. -/
theorem exists_stateAfter
    (inside : state < rules.kernelGraph.kernels.size) :
    ∃ symbols, rules.stateAfter symbols = some state := by
  have reached := rules.explored_kernelGraph.reached state inside
  clear inside
  induction reached with
  | refl => exact ⟨[], rfl⟩
  | tail _ adjacent inductionHypothesis =>
      obtain ⟨symbols, leads⟩ := inductionHypothesis
      obtain ⟨symbol, edge⟩ := adjacent
      refine ⟨symbols ++ [symbol], ?_⟩
      rw [stateAfter_concat_eq_goto leads]
      exact edge

/-! ## Items -/

/-- An item that symbols lead to is in the closure of a state. -/
theorem Viable.mem_closure
    (viable : rules.Viable symbols item) :
    ∃ state kernel, rules.stateAfter symbols = some state ∧
      rules.kernelGraph.kernels[state]? = some kernel ∧
      item ∈ rules.closure kernel := by
  induction viable with
  | start =>
      exact ⟨0, rules.startKernel, rfl, rules.explored_kernelGraph.first,
        Rules.mem_closure.mpr (.inl (List.mem_singleton_self _))⟩
  | advance _ next inductionHypothesis =>
      obtain ⟨state, kernel, leads, found, member⟩ := inductionHypothesis
      obtain ⟨target, edge⟩ := exists_goto found member next
      refine ⟨target, _, ?_, (kernel_of_goto found edge).1,
        Rules.mem_closure.mpr (.inl (mem_moved.mpr ⟨_, member, next, rfl⟩))⟩
      rw [stateAfter_concat_eq_goto leads]
      exact edge
  | predict _ called inductionHypothesis =>
      obtain ⟨state, kernel, leads, found, member⟩ := inductionHypothesis
      exact ⟨state, kernel, leads, found,
        mem_closure_of_predicted member called⟩

/-- The items of the state after some symbols are those that the symbols lead
to. -/
theorem viable_of_mem_closure
    (leads : rules.stateAfter symbols = some state)
    (found : rules.kernelGraph.kernels[state]? = some kernel)
    (member : item ∈ rules.closure kernel) :
    rules.Viable symbols item := by
  induction symbols using List.reverseRecOn generalizing state kernel item with
  | nil =>
      obtain rfl := Option.some.inj leads
      have isStart := Option.some.inj
        (found.symm.trans rules.explored_kernelGraph.first)
      refine closure_induction (rules.Viable []) (fun other inKernel => ?_)
        (fun _ _ viable _ called => .predict viable called) member
      rw [isStart, startKernel, List.mem_singleton] at inKernel
      exact inKernel ▸ .start
  | append_singleton symbols symbol inductionHypothesis =>
      rw [stateAfter_concat] at leads
      obtain ⟨before, leadsBefore, edge⟩ := Option.bind_eq_some_iff.mp leads
      obtain ⟨beforeKernel, beforeFound⟩ :=
        exists_kernel_of_stateAfter leadsBefore
      obtain ⟨moved, -⟩ := kernel_of_goto beforeFound edge
      obtain rfl := Option.some.inj (found.symm.trans moved)
      refine closure_induction (rules.Viable (symbols ++ [symbol]))
        (fun other inKernel => ?_)
        (fun _ _ viable _ called => .predict viable called) member
      obtain ⟨earlier, earlierMember, next, rfl⟩ := mem_moved.mp inKernel
      exact .advance
        (inductionHypothesis leadsBefore beforeFound earlierMember) next

/-! ## Known symbols -/

theorem Arises.lt_fresh
    (wellFormed : rules.WellFormed)
    (arises : rules.Arises item symbol) :
    symbol < rules.analysis.fresh := by
  obtain ⟨called, rest, split, follows⟩ := arises
  cases overrides : rules.override? item called with
  | none =>
      rw [overrides] at follows
      exact follows.lt_size wellFormed.grammar (wellFormed.rest_known split)
  | some symbols =>
      rw [overrides] at follows
      obtain ⟨rule, found, isOverride⟩ := Option.bind_eq_some_iff.mp overrides
      exact (wellFormed.grammar.overrides rule (Array.mem_of_getElem? found) _
        (Analysis.mem_of_lookup isOverride)).2 symbol follows

theorem WellFormed.fresh_pos (wellFormed : rules.WellFormed) :
    0 < rules.analysis.fresh :=
  Nat.lt_of_lt_of_le (by omega) wellFormed.grammar.structural

theorem Reaches.lt_fresh
    (wellFormed : rules.WellFormed)
    (reaches : rules.Reaches symbols item symbol) :
    symbol < rules.analysis.fresh := by
  induction reaches with
  | start => exact wellFormed.fresh_pos
  | advance _ _ inductionHypothesis => exact inductionHypothesis
  | arises _ _ arises => exact arises.lt_fresh wellFormed
  | inherits _ _ _ inductionHypothesis => exact inductionHypothesis

theorem regularSet_fresh (rules : Rules) :
    Analysis.RegularSet rules [rules.analysis.fresh] := by
  refine ⟨.singleton _, fun symbol member => ?_⟩
  obtain rfl := List.mem_singleton.mp member
  exact Nat.lt_succ_self _

theorem arrivalsRegular (wellFormed : rules.WellFormed) :
    rules.analysis.ArrivalsRegular rules.kernelGraph := by
  rintro entry isEntry ⟨slot, symbols⟩ arrival
  obtain ⟨source, -, isArrivals⟩ := Analysis.mem_allArrivals.mp isEntry
  rw [isArrivals] at arrival
  obtain ⟨reached, member, -⟩ := Analysis.mem_arrivals.mp arrival
  obtain ⟨ascends, below⟩ := Analysis.regularSet_of_mem_closure wellFormed
    (fun entry inKernel => List.mem_singleton.mp inKernel ▸
      rules.regularSet_fresh) member
  exact ⟨ascends, fun symbol found => Nat.le_of_lt_succ (below symbol found)⟩

theorem regular_slotSets (wellFormed : rules.WellFormed) :
    rules.slotSets.Regular rules.kernelGraph rules.analysis.fresh :=
  Analysis.regular_lookaheads wellFormed.fresh_pos
    (arrivalsRegular wellFormed)

theorem regularSet_lookaheadKernel
    (wellFormed : rules.WellFormed)
    (state : Nat)
    (entry : LookaheadItem)
    (member : entry ∈ rules.lookaheadKernel state) :
    Analysis.RegularSet rules entry.2 := by
  obtain ⟨index, -, isRow⟩ := mem_lookaheadKernel member
  have regular := regular_slotSets wellFormed
  rw [← isRow]
  refine ⟨regular.ascends _, fun symbol found => ?_⟩
  exact Nat.lt_succ_of_lt (regular.below _ symbol found)

/-- The lookaheads of a state as a closure. -/
theorem looks_iff_follows (wellFormed : rules.WellFormed) :
    rules.Looks state item symbol ↔
      rules.Follows (rules.lookaheadKernel state) item symbol :=
  Analysis.mem_closure_iff_follows wellFormed
    (regularSet_lookaheadKernel wellFormed state)

/-! ## Lookaheads from single kernel items -/

theorem mem_closure_fresh_iff
    (wellFormed : rules.WellFormed)
    {source : Item} :
    (∃ symbols, (item, symbols) ∈
        rules.analysis.closure [(source, [rules.analysis.fresh])] ∧
          symbol ∈ symbols) ↔
      rules.Follows [(source, [rules.analysis.fresh])] item symbol := by
  refine Analysis.mem_closure_iff_follows wellFormed fun entry member => ?_
  obtain rfl := List.mem_singleton.mp member
  exact rules.regularSet_fresh

/-- Every item of a closure comes from a single item of the kernel. -/
theorem exists_mem_closure_singleton
    (member : item ∈ rules.closure kernel) :
    ∃ source ∈ kernel, item ∈ rules.closure [source] := by
  refine closure_induction
    (fun other => ∃ source ∈ kernel, other ∈ rules.closure [source])
    (fun other inKernel => ?_) (fun other _ found production called => ?_)
    member
  · exact ⟨other, inKernel, mem_closure.mpr (.inl (List.mem_singleton_self _))⟩
  · obtain ⟨source, inKernel, fromSource⟩ := found
    exact ⟨source, inKernel, mem_closure_of_predicted fromSource called⟩

/-- A lookahead arises from one kernel item or is handed on by it. -/
theorem Follows.exists_source
    {kernel : List LookaheadItem}
    (follows : rules.Follows kernel item symbol) :
    ∃ source symbols, (source, symbols) ∈ kernel ∧
      (rules.Follows [(source, [rules.analysis.fresh])] item symbol ∨
        rules.Follows [(source, [rules.analysis.fresh])] item
          rules.analysis.fresh ∧ symbol ∈ symbols) := by
  induction follows with
  | @kernel item symbols symbol member found =>
      exact ⟨item, symbols, member, .inr ⟨.kernel (List.mem_singleton_self _)
        (List.mem_singleton_self _), found⟩⟩
  | arises member called arises =>
      obtain ⟨source, inKernel, fromSource⟩ :=
        exists_mem_closure_singleton member
      obtain ⟨⟨source, symbols⟩, entryMember, rfl⟩ := List.mem_map.mp inKernel
      exact ⟨source, symbols, entryMember,
        .inl (.arises fromSource called arises)⟩
  | inherits _ called inherits inductionHypothesis =>
      obtain ⟨source, symbols, member, alone | ⟨handed, found⟩⟩ :=
        inductionHypothesis
      · exact ⟨source, symbols, member, .inl (.inherits alone called inherits)⟩
      · exact ⟨source, symbols, member,
          .inr ⟨.inherits handed called inherits, found⟩⟩

/-- What arises from an item arises along every sequence that leads to it. -/
theorem Follows.reaches_of_viable
    {source : Item}
    (viable : rules.Viable symbols source)
    (follows : rules.Follows [(source, [rules.analysis.fresh])] item symbol)
    (notFresh : symbol ≠ rules.analysis.fresh) :
    rules.Reaches symbols item symbol := by
  induction follows with
  | kernel member found =>
      obtain ⟨rfl, rfl⟩ := Prod.mk.inj (List.mem_singleton.mp member)
      exact absurd (List.mem_singleton.mp found) notFresh
  | arises member called arises =>
      refine .arises ?_ called arises
      refine closure_induction (rules.Viable symbols)
        (fun other inKernel => ?_)
        (fun _ _ found _ called => .predict found called) member
      obtain rfl : other = source := List.mem_singleton.mp inKernel
      exact viable
  | inherits _ called inherits inductionHypothesis =>
      exact .inherits (inductionHypothesis notFresh) called inherits

/-- What follows an item follows the items to which it is handed on. -/
theorem Follows.reaches_of_reaches
    (wellFormed : rules.WellFormed)
    {source : Item}
    (reaches : rules.Reaches symbols source symbol)
    (follows : rules.Follows [(source, [rules.analysis.fresh])] item
      rules.analysis.fresh) :
    rules.Reaches symbols item symbol := by
  suffices general : ∀ following,
      rules.Follows [(source, [rules.analysis.fresh])] item following →
        following = rules.analysis.fresh → rules.Reaches symbols item symbol from
    general _ follows rfl
  intro following follows isFresh
  clear * - wellFormed reaches follows isFresh
  induction follows with
  | kernel member found =>
      obtain ⟨rfl, rfl⟩ := Prod.mk.inj (List.mem_singleton.mp member)
      exact reaches
  | arises _ _ arises =>
      exact absurd isFresh (Nat.ne_of_lt (arises.lt_fresh wellFormed))
  | inherits _ called inherits inductionHypothesis =>
      exact .inherits (inductionHypothesis isFresh) called inherits

/-! ## Exact lookaheads -/

theorem item?_first (rules : Rules) :
    rules.kernelGraph.item? ⟨0, 0⟩ = some ⟨rules.accept, 0⟩ := by
  simp [KernelGraph.item?, rules.explored_kernelGraph.first, startKernel]

/-- The slot that an item leads to lies in the next state. -/
theorem stateAfter_of_target?
    {reached : Item}
    {slot : Slot}
    (isTarget : rules.analysis.target? rules.kernelGraph state reached =
      some slot)
    (isItem : rules.kernelGraph.item? slot = some item)
    (leads : rules.stateAfter symbols = some state) :
    ∃ next, rules.next? reached = some next ∧ item = reached.advance ∧
      rules.stateAfter (symbols ++ [next]) = some slot.state := by
  obtain ⟨isAdvanced, next, edges, isNext, isEdges, edge⟩ :=
    Analysis.target?_eq_some isTarget
  have isGoto : rules.kernelGraph.goto state next = some slot.state :=
    Option.bind_eq_some_iff.mpr ⟨edges, isEdges, edge⟩
  refine ⟨next, isNext, Option.some.inj (isItem.symm.trans isAdvanced), ?_⟩
  rw [stateAfter_concat_eq_goto leads]
  exact isGoto

/-- An item that is moved over a symbol has a slot in the next state. -/
theorem exists_target?
    {target : Nat}
    (found : rules.kernelGraph.kernels[state]? = some kernel)
    (member : item ∈ rules.closure kernel)
    (next : rules.next? item = some symbol)
    (edge : rules.kernelGraph.goto state symbol = some target) :
    ∃ slot : Slot, slot.state = target ∧
      rules.analysis.target? rules.kernelGraph state item = some slot := by
  obtain ⟨edges, isEdges, isTarget⟩ := Option.bind_eq_some_iff.mp edge
  obtain ⟨moved, -⟩ := kernel_of_goto found edge
  have inMoved : item.advance ∈ rules.moved kernel symbol :=
    mem_moved.mpr ⟨item, member, next, rfl⟩
  have isFound : ((rules.moved kernel symbol).findIdx?
      (· == item.advance)).isSome = true := by
    rw [List.findIdx?_isSome, List.any_eq_true]
    exact ⟨item.advance, inMoved, beq_self_eq_true _⟩
  obtain ⟨index, isIndex⟩ := Option.isSome_iff_exists.mp isFound
  refine ⟨⟨target, index⟩, rfl, ?_⟩
  simp [Analysis.target?, next, isEdges, isTarget, moved, isIndex]

/-- A lookahead moves on with its item. -/
theorem Looks.advance
    (wellFormed : rules.WellFormed)
    {following : SymbolId}
    {target : Nat}
    (looks : rules.Looks state item following)
    (known : following < rules.analysis.fresh)
    (found : rules.kernelGraph.kernels[state]? = some kernel)
    (next : rules.next? item = some symbol)
    (edge : rules.kernelGraph.goto state symbol = some target) :
    rules.Looks target item.advance following := by
  obtain ⟨slot, rfl, isTarget⟩ :=
    exists_target? found (looks.mem_closure found) next edge
  obtain ⟨source, symbols, inKernel, origin⟩ :=
    ((looks_iff_follows wellFormed).mp looks).exists_source
  obtain ⟨index, isSource, rfl⟩ := mem_lookaheadKernel inKernel
  obtain ⟨isAdvanced, -⟩ := Analysis.target?_eq_some isTarget
  have isEntry : (⟨state, index⟩, rules.analysis.arrivals rules.kernelGraph
      state source) ∈ rules.analysis.allArrivals rules.kernelGraph :=
    Analysis.mem_allArrivals.mpr ⟨source, isSource, rfl⟩
  have isSlot : (rules.kernelGraph.item? slot).isSome = true := by
    rw [isAdvanced]
    rfl
  have fromSource : ∀ other,
      rules.Follows [(source, [rules.analysis.fresh])] item other →
      ∃ symbols, (slot, symbols) ∈
        rules.analysis.arrivals rules.kernelGraph state source ∧
          other ∈ symbols := by
    intro other follows
    obtain ⟨symbols, member, inSymbols⟩ :=
      (mem_closure_fresh_iff wellFormed).mpr follows
    exact ⟨symbols, Analysis.mem_arrivals.mpr ⟨item, member, isTarget⟩,
      inSymbols⟩
  have inSet : following ∈ rules.slotSets.get slot := by
    rcases origin with alone | ⟨handed, inSource⟩
    · obtain ⟨symbols, arrival, inSymbols⟩ := fromSource _ alone
      exact Analysis.mem_lookaheads_of_arises isEntry arrival isSlot inSymbols
        (Nat.ne_of_lt known)
    · obtain ⟨symbols, arrival, hasFresh⟩ := fromSource _ handed
      exact Analysis.mem_lookaheads_of_handed wellFormed.fresh_pos
        (arrivalsRegular wellFormed) isEntry arrival isSlot hasFresh inSource
  refine (looks_iff_follows wellFormed).mpr (.kernel ?_ inSet)
  exact exists_mem_lookaheadKernel isAdvanced

/-- Whatever may follow an item along some symbols is a lookahead in the state
after them. -/
theorem Reaches.looks
    (wellFormed : rules.WellFormed)
    {following : SymbolId}
    (reaches : rules.Reaches symbols item following)
    (leads : rules.stateAfter symbols = some state) :
    rules.Looks state item following := by
  induction reaches generalizing state with
  | start =>
      obtain rfl := Option.some.inj leads
      refine (looks_iff_follows wellFormed).mpr
        (.kernel (exists_mem_lookaheadKernel rules.item?_first) ?_)
      exact Analysis.end_mem_lookaheads (by rw [item?_first]; rfl)
  | @advance symbols item symbol following reaches next inductionHypothesis =>
      rw [stateAfter_concat] at leads
      obtain ⟨before, leadsBefore, edge⟩ := Option.bind_eq_some_iff.mp leads
      obtain ⟨kernel, found⟩ := exists_kernel_of_stateAfter leadsBefore
      exact (inductionHypothesis leadsBefore).advance wellFormed
        (reaches.lt_fresh wellFormed) found next edge
  | @arises symbols item production following viable called arises =>
      obtain ⟨other, kernel, otherLeads, found, member⟩ := viable.mem_closure
      obtain rfl := Option.some.inj (leads.symm.trans otherLeads)
      refine (looks_iff_follows wellFormed).mpr (.arises ?_ called arises)
      rwa [map_lookaheadKernel found]
  | inherits _ called inherits inductionHypothesis =>
      exact (looks_iff_follows wellFormed).mpr (.inherits
        ((looks_iff_follows wellFormed).mp (inductionHypothesis leads)) called
        inherits)

/-- Every lookahead of a kernel item may follow it along some symbols. -/
theorem exists_reaches_of_mem_slotSets
    (wellFormed : rules.WellFormed) :
    rules.slotSets.Within fun slot symbol =>
      ∀ item, rules.kernelGraph.item? slot = some item →
        ∃ symbols, rules.stateAfter symbols = some slot.state ∧
          rules.Reaches symbols item symbol := by
  refine Analysis.lookaheads_induction ?_ ?_ ?_
  · intro item isItem
    obtain rfl := Option.some.inj (rules.item?_first.symm.trans isItem)
    exact ⟨[], rfl, .start⟩
  · rintro entry isEntry ⟨slot, symbols⟩ arrival symbol inSymbols notFresh item
      isItem
    obtain ⟨source, isSource, isArrivals⟩ :=
      Analysis.mem_allArrivals.mp isEntry
    rw [isArrivals] at arrival
    obtain ⟨reached, member, isTarget⟩ := Analysis.mem_arrivals.mp arrival
    obtain ⟨kernel, found, inKernel⟩ := Option.bind_eq_some_iff.mp isSource
    obtain ⟨before, leads⟩ :=
      exists_stateAfter (Array.getElem?_eq_some_iff.mp found).1
    obtain ⟨next, isNext, rfl, leadsOn⟩ :=
      stateAfter_of_target? isTarget isItem leads
    have viable : rules.Viable before source := viable_of_mem_closure leads found
      (mem_closure.mpr (.inl (List.mem_of_getElem? inKernel)))
    have follows := (mem_closure_fresh_iff wellFormed).mp
      ⟨symbols, member, inSymbols⟩
    exact ⟨before ++ [next], leadsOn,
      .advance (follows.reaches_of_viable viable notFresh) isNext⟩
  · rintro entry isEntry ⟨slot, symbols⟩ arrival hasFresh symbol sourceReaches
      item isItem
    obtain ⟨source, isSource, isArrivals⟩ :=
      Analysis.mem_allArrivals.mp isEntry
    rw [isArrivals] at arrival
    obtain ⟨reached, member, isTarget⟩ := Analysis.mem_arrivals.mp arrival
    obtain ⟨before, leads, reaches⟩ := sourceReaches source isSource
    obtain ⟨next, isNext, rfl, leadsOn⟩ :=
      stateAfter_of_target? isTarget isItem leads
    have follows := (mem_closure_fresh_iff wellFormed).mp
      ⟨symbols, member, hasFresh⟩
    exact ⟨before ++ [next], leadsOn,
      .advance (follows.reaches_of_reaches wellFormed reaches) isNext⟩

/-- Every lookahead in a state may follow its item along some symbols that lead
to the state. -/
theorem Looks.exists_reaches
    (wellFormed : rules.WellFormed)
    (inside : state < rules.kernelGraph.kernels.size)
    (looks : rules.Looks state item symbol) :
    ∃ symbols, rules.stateAfter symbols = some state ∧
      rules.Reaches symbols item symbol := by
  have follows := (looks_iff_follows wellFormed).mp looks
  clear looks
  induction follows with
  | kernel member found =>
      obtain ⟨index, isItem, rfl⟩ := mem_lookaheadKernel member
      exact exists_reaches_of_mem_slotSets wellFormed _ _ found _ isItem
  | arises member called arises =>
      obtain ⟨symbols, leads⟩ := exists_stateAfter inside
      have found := Array.getElem?_eq_getElem inside
      rw [map_lookaheadKernel found] at member
      exact ⟨symbols, leads,
        .arises (viable_of_mem_closure leads found member) called arises⟩
  | inherits _ called inherits inductionHypothesis =>
      obtain ⟨symbols, leads, reaches⟩ := inductionHypothesis
      exact ⟨symbols, leads, .inherits reaches called inherits⟩

end Rules
end Table
end ParserGenerator
