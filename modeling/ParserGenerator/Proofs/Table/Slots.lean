import Mathlib.Data.Finset.Prod
import ParserGenerator.Proofs.Ascending
import ParserGenerator.Proofs.Fixpoint
import ParserGenerator.Table.Lookaheads

/-!
# Sets of lookaheads

The lookaheads of kernel items are the least sets with the end of the source
at the first item, with the symbols that arise by themselves, and closed under
handing on.
-/

namespace ParserGenerator
namespace Table

/-- The kernel item at a slot. -/
def KernelGraph.item? (graph : KernelGraph) (slot : Slot) : Option Item :=
  graph.kernels[slot.state]?.bind (·[slot.index]?)

namespace SlotSets

/-- The set at a slot, if there is such a slot. -/
def row? (sets : SlotSets) (slot : Slot) : Option SymbolSet :=
  sets[slot.state]?.bind (·[slot.index]?)

theorem get_eq_row? (sets : SlotSets) (slot : Slot) :
    sets.get slot = (sets.row? slot).getD [] := rfl

theorem row?_add (sets : SlotSets) (slot other : Slot) (symbols : SymbolSet) :
    (sets.add slot symbols).row? other =
      if slot = other then
        (sets.row? other).map (mergeAscending · symbols)
      else
        sets.row? other := by
  obtain ⟨state, index⟩ := slot
  obtain ⟨otherState, otherIndex⟩ := other
  simp only [row?, add, Array.getElem?_modify, Slot.mk.injEq]
  by_cases sameState : state = otherState
  · cases found : sets[otherState]? with
    | none => simp
    | some row =>
        by_cases sameIndex : index = otherIndex
        · simp [sameState, sameIndex, Array.getElem?_modify]
        · simp [sameState, sameIndex, Array.getElem?_modify]
  · simp [sameState]

/-- Adding to a slot adds nothing else. -/
theorem mem_get_add
    {sets : SlotSets}
    {slot other : Slot}
    {symbols : SymbolSet}
    {symbol : SymbolId} :
    symbol ∈ (sets.add slot symbols).get other ↔
      symbol ∈ sets.get other ∨
        slot = other ∧ (sets.row? slot).isSome ∧ symbol ∈ symbols := by
  rw [get_eq_row?, get_eq_row?, row?_add]
  by_cases same : slot = other
  · subst same
    cases sets.row? slot with
    | none => simp
    | some row => simp
  · simp [same]

/-- There is a set for each kernel item, and no other. -/
def Shaped (graph : KernelGraph) (sets : SlotSets) : Prop :=
  sets.map Array.size = graph.kernels.map List.length

theorem map_size_add (sets : SlotSets) (slot : Slot) (symbols : SymbolSet) :
    (sets.add slot symbols).map Array.size = sets.map Array.size := by
  refine Array.ext_getElem? fun state => ?_
  simp only [add, Array.getElem?_map, Array.getElem?_modify]
  split
  · rw [Option.map_map]
    exact congrArg (Option.map · _) (funext fun row => by simp)
  · rfl

theorem Shaped.add
    {graph : KernelGraph}
    {sets : SlotSets}
    (shaped : Shaped graph sets)
    (slot : Slot)
    (symbols : SymbolSet) :
    Shaped graph (sets.add slot symbols) :=
  (map_size_add sets slot symbols).trans shaped

theorem shaped_empty (graph : KernelGraph) :
    Shaped graph
      (graph.kernels.map fun kernel => Array.replicate kernel.length []) := by
  simp [Shaped, Function.comp_def]

theorem isSome_row?_iff
    {graph : KernelGraph}
    {sets : SlotSets}
    (shaped : Shaped graph sets)
    (slot : Slot) :
    (sets.row? slot).isSome = (graph.item? slot).isSome := by
  have sizes := congrArg (·[slot.state]?) shaped
  simp only [Array.getElem?_map] at sizes
  unfold row? KernelGraph.item?
  cases rows : sets[slot.state]? with
  | none =>
      cases kernels : graph.kernels[slot.state]? with
      | none => rfl
      | some kernel => simp [rows, kernels] at sizes
  | some row =>
      cases kernels : graph.kernels[slot.state]? with
      | none => simp [rows, kernels] at sizes
      | some kernel =>
          have same : row.size = kernel.length := by
            simpa [rows, kernels] using sizes
          by_cases inside : slot.index < row.size
          · simp [inside, same ▸ inside]
          · simp [inside, same ▸ inside]

theorem get_empty (graph : KernelGraph) (slot : Slot) :
    SlotSets.get
      (graph.kernels.map fun kernel => Array.replicate kernel.length [])
      slot = [] := by
  simp only [get, Array.getElem?_map]
  cases graph.kernels[slot.state]? with
  | none => rfl
  | some kernel =>
      simp only [Option.map_some, Option.bind_some, Array.getElem?_replicate]
      split <;> rfl

/-- Sets of known symbols in order, one for each kernel item. -/
structure Regular (graph : KernelGraph) (bound : Nat) (sets : SlotSets) :
    Prop where
  /-- There is a set for each kernel item, and no other. -/
  shaped : Shaped graph sets
  /-- The sets are in order. -/
  ascends : ∀ slot, Ascends (sets.get slot)
  /-- The symbols are known. -/
  below : ∀ slot, ∀ symbol ∈ sets.get slot, symbol < bound

theorem Regular.add
    {graph : KernelGraph}
    {bound : Nat}
    {sets : SlotSets}
    (regular : Regular graph bound sets)
    (slot : Slot)
    {symbols : SymbolSet}
    (ascends : Ascends symbols)
    (below : ∀ symbol ∈ symbols, symbol < bound) :
    Regular graph bound (sets.add slot symbols) where
  shaped := regular.shaped.add slot symbols
  ascends other := by
    have before := regular.ascends other
    rw [get_eq_row?] at before ⊢
    rw [row?_add]
    split
    · cases found : sets.row? other with
      | none => exact .nil
      | some row => exact ascends_mergeAscending row ascends
    · exact before
  below other symbol member := by
    rcases mem_get_add.mp member with earlier | ⟨-, -, added⟩
    · exact regular.below other symbol earlier
    · exact below symbol added

/-- Sets with the same members are equal. -/
theorem Regular.eq_of_mem_iff
    {graph : KernelGraph}
    {bound : Nat}
    {left right : SlotSets}
    (leftRegular : Regular graph bound left)
    (rightRegular : Regular graph bound right)
    (same : ∀ slot symbol, symbol ∈ left.get slot ↔ symbol ∈ right.get slot) :
    left = right := by
  have sameGet : ∀ slot, left.get slot = right.get slot := fun slot =>
    (leftRegular.ascends slot).eq_of_mem_iff (rightRegular.ascends slot)
      (same slot)
  have sizes : left.map Array.size = right.map Array.size :=
    leftRegular.shaped.trans rightRegular.shaped.symm
  have sizeAt : ∀ state : Nat, left[state]?.map Array.size =
      right[state]?.map Array.size := by
    intro state
    simpa using congrArg (·[state]?) sizes
  refine Array.ext_getElem? fun state => ?_
  cases leftRow : left[state]? with
  | none => simpa [leftRow, eq_comm] using sizeAt state
  | some leftSets =>
      obtain ⟨rightSets, rightRow, sameSize⟩ :
          ∃ rightSets, right[state]? = some rightSets ∧
            rightSets.size = leftSets.size := by
        simpa [leftRow, eq_comm] using (sizeAt state).symm
      rw [rightRow, Option.some_inj]
      refine Array.ext sameSize.symm fun index leftInside rightInside => ?_
      simpa [get, leftRow, rightRow, leftInside, rightInside] using
        sameGet ⟨state, index⟩

/-- All members satisfy a property. -/
def Within (holds : Slot → SymbolId → Prop) (sets : SlotSets) : Prop :=
  ∀ slot, ∀ symbol ∈ sets.get slot, holds slot symbol

theorem Within.add
    {holds : Slot → SymbolId → Prop}
    {sets : SlotSets}
    {slot : Slot}
    {symbols : SymbolSet}
    (within : sets.Within holds)
    (added : ∀ symbol ∈ symbols, holds slot symbol) :
    (sets.add slot symbols).Within holds := by
  intro other symbol member
  rcases mem_get_add.mp member with earlier | ⟨rfl, -, isNew⟩
  · exact within other symbol earlier
  · exact added symbol isNew

/-- Whether a symbol is a member of a set. -/
def Has (sets : SlotSets) (fact : Slot × SymbolId) : Prop :=
  fact.2 ∈ sets.get fact.1

theorem Has.add
    {sets : SlotSets}
    {fact : Slot × SymbolId}
    (has : sets.Has fact)
    (slot : Slot)
    (symbols : SymbolSet) :
    (sets.add slot symbols).Has fact :=
  mem_get_add.mpr (.inl has)

end SlotSets

namespace Analysis

variable {analysis : Analysis} {graph : KernelGraph}

/-- The sets before anything is handed on. -/
def initialSets (analysis : Analysis) (graph : KernelGraph) : SlotSets :=
  (analysis.allArrivals graph).foldl
    (fun sets entry => analysis.spontaneous sets entry.2)
    (SlotSets.add
      (graph.kernels.map fun kernel => Array.replicate kernel.length [])
      ⟨0, 0⟩ [Grammar.endSymbol])

/-- The slots to which each slot hands on. -/
def sources (analysis : Analysis) (graph : KernelGraph) :
    List (Slot × List Slot) :=
  (analysis.allArrivals graph).map fun entry =>
    (entry.1, analysis.links entry.2)

theorem lookaheads_value (analysis : Analysis) (graph : KernelGraph) :
    (analysis.lookaheads graph).value =
      (settle (handOnPass (analysis.sources graph))
        ((slots graph).length * analysis.rules.grammar.symbols.size + 1)
        (analysis.initialSets graph)).value := rfl

theorem mem_links {slot : Slot} {arrivals : List (Slot × SymbolSet)} :
    slot ∈ analysis.links arrivals ↔
      ∃ symbols, (slot, symbols) ∈ arrivals ∧ analysis.fresh ∈ symbols := by
  simp [links, and_comm]

theorem mem_slots {slot : Slot} {item : Item} :
    (slot, item) ∈ slots graph ↔ graph.item? slot = some item := by
  obtain ⟨state, index⟩ := slot
  simp only [slots, KernelGraph.item?, List.mem_flatMap, List.mem_map,
    Prod.exists, List.mem_zipIdx_iff_getElem?, Array.getElem?_toList,
    Prod.mk.injEq, Slot.mk.injEq, Option.bind_eq_some_iff]
  constructor
  · rintro ⟨kernel, _, found, other, _, itemFound, ⟨rfl, rfl⟩, rfl⟩
    exact ⟨kernel, found, itemFound⟩
  · rintro ⟨kernel, found, itemFound⟩
    exact ⟨kernel, state, found, item, index, itemFound, ⟨rfl, rfl⟩, rfl⟩

theorem mem_allArrivals {entry : Slot × List (Slot × SymbolSet)} :
    entry ∈ analysis.allArrivals graph ↔
      ∃ item, graph.item? entry.1 = some item ∧
        entry.2 = analysis.arrivals graph entry.1.state item := by
  simp only [allArrivals, List.mem_map, Prod.exists, mem_slots]
  constructor
  · rintro ⟨slot, item, isItem, rfl⟩
    exact ⟨item, isItem, rfl⟩
  · rintro ⟨item, isItem, isArrivals⟩
    exact ⟨entry.1, item, isItem, Prod.ext rfl isArrivals.symm⟩

theorem mem_arrivals
    {state : Nat}
    {item : Item}
    {slot : Slot}
    {symbols : SymbolSet} :
    (slot, symbols) ∈ analysis.arrivals graph state item ↔
      ∃ reached, (reached, symbols) ∈
          analysis.closure [(item, [analysis.fresh])] ∧
        analysis.target? graph state reached = some slot := by
  simp only [arrivals, List.mem_filterMap, Option.map_eq_some_iff,
    Prod.mk.injEq, Prod.exists]
  constructor
  · rintro ⟨reached, _, member, _, isTarget, rfl, rfl⟩
    exact ⟨reached, member, isTarget⟩
  · rintro ⟨reached, member, isTarget⟩
    exact ⟨reached, symbols, member, slot, isTarget, rfl, rfl⟩

/-- The target of an item is the kernel item with the dot moved on. -/
theorem target?_eq_some
    {state : Nat}
    {item : Item}
    {slot : Slot}
    (isTarget : analysis.target? graph state item = some slot) :
    graph.item? slot = some item.advance ∧
      ∃ symbol edges, analysis.rules.next? item = some symbol ∧
        graph.gotos[state]? = some edges ∧
        edges.lookup symbol = some slot.state := by
  simp only [target?, Option.bind_eq_bind, Option.bind_eq_some_iff,
    Option.pure_def, Option.some.injEq] at isTarget
  obtain ⟨symbol, next, edges, isEdges, target, edge, kernel, isKernel, index,
    isIndex, rfl⟩ := isTarget
  obtain ⟨inside, same, -⟩ := List.findIdx?_eq_some_iff_getElem.mp isIndex
  refine ⟨Option.bind_eq_some_iff.mpr ⟨kernel, isKernel, ?_⟩,
    symbol, edges, next, isEdges, edge⟩
  rw [List.getElem?_eq_getElem inside, eq_of_beq same]

/-! ## Nothing but what arises or is handed on -/

variable {holds : Slot → SymbolId → Prop}

theorem within_spontaneous
    {sets : SlotSets}
    {arrivals : List (Slot × SymbolSet)}
    (within : sets.Within holds)
    (arises : ∀ arrival ∈ arrivals, ∀ symbol ∈ arrival.2,
      symbol ≠ analysis.fresh → holds arrival.1 symbol) :
    (analysis.spontaneous sets arrivals).Within holds := by
  refine List.foldlRecOn arrivals _ within fun sets within arrival member => ?_
  refine within.add fun symbol symbolMember => ?_
  obtain ⟨inArrival, notFresh⟩ := List.mem_filter.mp symbolMember
  exact arises arrival member symbol inArrival (by simpa using notFresh)

theorem within_handOn
    {sets : SlotSets}
    {source : Slot × List Slot}
    (within : sets.Within holds)
    (handed : ∀ target ∈ source.2, ∀ symbol, holds source.1 symbol →
      holds target symbol) :
    (handOn sets source).Within holds := by
  have fromSource := within source.1
  refine List.foldlRecOn source.2 _ within fun sets within target member => ?_
  exact within.add fun symbol symbolMember =>
    handed target member symbol (fromSource symbol symbolMember)

/-- What holds of the end of the source at the first item and of the symbols
that arise, and is kept when symbols are handed on, holds of all lookaheads. -/
theorem lookaheads_induction
    (first : holds ⟨0, 0⟩ Grammar.endSymbol)
    (arises : ∀ entry ∈ analysis.allArrivals graph, ∀ arrival ∈ entry.2,
      ∀ symbol ∈ arrival.2, symbol ≠ analysis.fresh →
        holds arrival.1 symbol)
    (handed : ∀ entry ∈ analysis.allArrivals graph, ∀ arrival ∈ entry.2,
      analysis.fresh ∈ arrival.2 → ∀ symbol, holds entry.1 symbol →
        holds arrival.1 symbol) :
    (analysis.lookaheads graph).value.Within holds := by
  rw [lookaheads_value]
  refine settle_induction (SlotSets.Within holds) (fun sets within => ?_) _ ?_
  · refine List.foldlRecOn _ _ within fun sets within source member => ?_
    obtain ⟨entry, entryMember, rfl⟩ := List.mem_map.mp member
    refine within_handOn within fun target isLink symbol => ?_
    obtain ⟨symbols, arrival, hasFresh⟩ := mem_links.mp isLink
    exact handed entry entryMember _ arrival hasFresh symbol
  · refine List.foldlRecOn _ _ ?_ fun sets within entry member => ?_
    · refine SlotSets.Within.add ?_ ?_
      · intro slot symbol member
        rw [SlotSets.get_empty] at member
        simp at member
      · intro symbol member
        obtain rfl := List.mem_singleton.mp member
        exact first
    · exact within_spontaneous within (arises entry member)

/-! ## All that arises or is handed on -/

theorem shaped_spontaneous
    {sets : SlotSets}
    (arrivals : List (Slot × SymbolSet))
    (shaped : SlotSets.Shaped graph sets) :
    SlotSets.Shaped graph (analysis.spontaneous sets arrivals) :=
  List.foldlRecOn arrivals _ shaped fun _ shaped _ _ => shaped.add _ _

theorem shaped_handOn
    {sets : SlotSets}
    (source : Slot × List Slot)
    (shaped : SlotSets.Shaped graph sets) :
    SlotSets.Shaped graph (handOn sets source) :=
  List.foldlRecOn source.2 _ shaped fun _ shaped _ _ => shaped.add _ _

theorem shaped_lookaheads (analysis : Analysis) (graph : KernelGraph) :
    SlotSets.Shaped graph (analysis.lookaheads graph).value := by
  refine settle_induction (SlotSets.Shaped graph) ?_ _ ?_
  · exact fun sets shaped => List.foldlRecOn _ _ shaped
      fun _ shaped source _ => shaped_handOn source shaped
  · exact List.foldlRecOn _ _ ((SlotSets.shaped_empty graph).add _ _)
      fun _ shaped entry _ => shaped_spontaneous entry.2 shaped

/-- The arrivals bring known symbols in order. -/
def ArrivalsRegular (analysis : Analysis) (graph : KernelGraph) : Prop :=
  ∀ entry ∈ analysis.allArrivals graph, ∀ arrival ∈ entry.2,
    Ascends arrival.2 ∧ ∀ symbol ∈ arrival.2, symbol ≤ analysis.fresh

theorem regular_spontaneous
    {sets : SlotSets}
    {arrivals : List (Slot × SymbolSet)}
    (regular : sets.Regular graph analysis.fresh)
    (arrivalsRegular : ∀ arrival ∈ arrivals,
      Ascends arrival.2 ∧ ∀ symbol ∈ arrival.2, symbol ≤ analysis.fresh) :
    (analysis.spontaneous sets arrivals).Regular graph analysis.fresh := by
  refine List.foldlRecOn arrivals _ regular
    fun sets regular arrival member => ?_
  obtain ⟨ascends, below⟩ := arrivalsRegular arrival member
  refine regular.add _ (ascends.filter _) fun symbol symbolMember => ?_
  obtain ⟨inArrival, notFresh⟩ := List.mem_filter.mp symbolMember
  exact Nat.lt_of_le_of_ne (below symbol inArrival) (by simpa using notFresh)

theorem regular_handOn
    {sets : SlotSets}
    (source : Slot × List Slot)
    (regular : sets.Regular graph analysis.fresh) :
    (handOn sets source).Regular graph analysis.fresh := by
  have ascends := regular.ascends source.1
  have below := regular.below source.1
  exact List.foldlRecOn source.2 _ regular fun sets regular target _ =>
    regular.add target ascends below

theorem regular_handOnPass
    {sets : SlotSets}
    (sources : List (Slot × List Slot))
    (regular : sets.Regular graph analysis.fresh) :
    (handOnPass sources sets).Regular graph analysis.fresh :=
  List.foldlRecOn sources _ regular fun _ regular source _ =>
    regular_handOn source regular

/-- The empty sets with the end of the source at the first item. -/
theorem regular_first (known : 0 < analysis.fresh) :
    (SlotSets.add
      (graph.kernels.map fun kernel => Array.replicate kernel.length [])
      ⟨0, 0⟩ [Grammar.endSymbol]).Regular graph analysis.fresh := by
  refine SlotSets.Regular.add ⟨SlotSets.shaped_empty graph, ?_, ?_⟩ _
    (.singleton _) ?_
  · intro slot
    rw [SlotSets.get_empty]
    exact .nil
  · intro slot symbol member
    rw [SlotSets.get_empty] at member
    simp at member
  · intro symbol member
    obtain rfl := List.mem_singleton.mp member
    exact known

theorem regular_initialSets
    (known : 0 < analysis.fresh)
    (arrivals : analysis.ArrivalsRegular graph) :
    (analysis.initialSets graph).Regular graph analysis.fresh :=
  List.foldlRecOn _ _ (regular_first known) fun _ regular entry member =>
    regular_spontaneous regular (arrivals entry member)

theorem regular_lookaheads
    (known : 0 < analysis.fresh)
    (arrivals : analysis.ArrivalsRegular graph) :
    (analysis.lookaheads graph).value.Regular graph analysis.fresh :=
  settle_induction (SlotSets.Regular graph analysis.fresh)
    (fun _ regular => regular_handOnPass _ regular) _
    (regular_initialSets known arrivals)

theorem has_spontaneous
    {sets : SlotSets}
    {fact : Slot × SymbolId}
    (arrivals : List (Slot × SymbolSet))
    (has : sets.Has fact) :
    (analysis.spontaneous sets arrivals).Has fact :=
  has_foldl SlotSets.Has (fun _ _ _ found => found.add _ _) arrivals has

theorem has_handOn
    {sets : SlotSets}
    {fact : Slot × SymbolId}
    (source : Slot × List Slot)
    (has : sets.Has fact) :
    (handOn sets source).Has fact :=
  has_foldl SlotSets.Has (fun _ _ _ found => found.add _ _) source.2 has

theorem has_handOnPass
    {sets : SlotSets}
    {fact : Slot × SymbolId}
    (sources : List (Slot × List Slot))
    (has : sets.Has fact) :
    (handOnPass sources sets).Has fact :=
  has_foldl SlotSets.Has (fun _ source _ found => has_handOn source found) sources has

/-- Handing on has come to an end. -/
theorem handOnPass_lookaheads
    (known : 0 < analysis.fresh)
    (arrivals : analysis.ArrivalsRegular graph) :
    handOnPass (analysis.sources graph) (analysis.lookaheads graph).value =
      (analysis.lookaheads graph).value := by
  classical
  let facts := ((slots graph).map Prod.fst).toFinset ×ˢ
    Finset.range analysis.rules.grammar.symbols.size
  refine settle_fixed_of_facts (SlotSets.Regular graph analysis.fresh)
    SlotSets.Has facts ?_ ?_ ?_ ?_ (regular_initialSets known arrivals) ?_
  · exact fun sets regular => regular_handOnPass _ regular
  · exact fun sets _ fact has => has_handOnPass _ has
  · rintro sets regular ⟨slot, symbol⟩ has
    have isSlot : (graph.item? slot).isSome := by
      rw [← SlotSets.isSome_row?_iff regular.shaped]
      cases found : sets.row? slot with
      | none => simp [SlotSets.Has, SlotSets.get_eq_row?, found] at has
      | some row => rfl
    obtain ⟨item, isItem⟩ := Option.isSome_iff_exists.mp isSlot
    refine Finset.mem_product.mpr ⟨?_, Finset.mem_range.mpr
      (regular.below slot symbol has)⟩
    exact List.mem_toFinset.mpr
      (List.mem_map.mpr ⟨_, mem_slots.mpr isItem, rfl⟩)
  · exact fun left right leftRegular rightRegular same =>
      leftRegular.eq_of_mem_iff rightRegular fun slot symbol =>
        same (slot, symbol)
  · have few : facts.card ≤
        (slots graph).length * analysis.rules.grammar.symbols.size := by
      rw [Finset.card_product, Finset.card_range]
      refine Nat.mul_le_mul_right _ ((List.toFinset_card_le _).trans ?_)
      rw [List.length_map]
    omega

theorem has_lookaheads_of_has
    {fact : Slot × SymbolId}
    (has : (analysis.initialSets graph).Has fact) :
    (analysis.lookaheads graph).value.Has fact :=
  settle_induction (SlotSets.Has · fact)
    (fun _ found => has_handOnPass _ found) _ has

/-- The end of the source is a lookahead of the first item. -/
theorem end_mem_lookaheads
    (isSlot : (graph.item? ⟨0, 0⟩).isSome) :
    Grammar.endSymbol ∈ (analysis.lookaheads graph).value.get ⟨0, 0⟩ := by
  show (analysis.lookaheads graph).value.Has (⟨0, 0⟩, Grammar.endSymbol)
  refine has_lookaheads_of_has (has_foldl SlotSets.Has
    (fun _ entry _ found => has_spontaneous entry.2 found) _ ?_)
  refine SlotSets.mem_get_add.mpr (.inr ⟨rfl, ?_, List.mem_singleton_self _⟩)
  rwa [SlotSets.isSome_row?_iff (SlotSets.shaped_empty graph)]

/-- Symbols that arise are lookaheads. -/
theorem mem_lookaheads_of_arises
    {entry : Slot × List (Slot × SymbolSet)}
    {slot : Slot}
    {symbols : SymbolSet}
    {symbol : SymbolId}
    (isEntry : entry ∈ analysis.allArrivals graph)
    (arrival : (slot, symbols) ∈ entry.2)
    (isSlot : (graph.item? slot).isSome)
    (member : symbol ∈ symbols)
    (notFresh : symbol ≠ analysis.fresh) :
    symbol ∈ (analysis.lookaheads graph).value.get slot := by
  show (analysis.lookaheads graph).value.Has (slot, symbol)
  refine has_lookaheads_of_has (has_foldl_of_mem SlotSets.Has
    (fun _ entry _ found => has_spontaneous entry.2 found)
    (SlotSets.Shaped graph)
    (fun _ entry shaped => shaped_spontaneous entry.2 shaped)
    ((SlotSets.shaped_empty graph).add _ _) isEntry ?_)
  intro sets shaped _
  refine has_foldl_of_mem SlotSets.Has (fun _ _ _ found => found.add _ _)
    (SlotSets.Shaped graph) (fun _ _ shaped => shaped.add _ _) shaped
    arrival ?_
  intro later laterShaped _
  refine SlotSets.mem_get_add.mpr (.inr ⟨rfl, ?_, ?_⟩)
  · rwa [SlotSets.isSome_row?_iff laterShaped]
  · exact List.mem_filter.mpr ⟨member, by simpa using notFresh⟩

/-- Lookaheads that are handed on are lookaheads. -/
theorem mem_lookaheads_of_handed
    {entry : Slot × List (Slot × SymbolSet)}
    {slot : Slot}
    {symbols : SymbolSet}
    {symbol : SymbolId}
    (known : 0 < analysis.fresh)
    (arrivals : analysis.ArrivalsRegular graph)
    (isEntry : entry ∈ analysis.allArrivals graph)
    (arrival : (slot, symbols) ∈ entry.2)
    (isSlot : (graph.item? slot).isSome)
    (hasFresh : analysis.fresh ∈ symbols)
    (member : symbol ∈ (analysis.lookaheads graph).value.get entry.1) :
    symbol ∈ (analysis.lookaheads graph).value.get slot := by
  have isSource : (entry.1, analysis.links entry.2) ∈
      analysis.sources graph := List.mem_map.mpr ⟨entry, isEntry, rfl⟩
  have isLink : slot ∈ analysis.links entry.2 :=
    mem_links.mpr ⟨symbols, arrival, hasFresh⟩
  show (analysis.lookaheads graph).value.Has (slot, symbol)
  rw [← handOnPass_lookaheads known arrivals]
  refine has_foldl_of_mem SlotSets.Has
    (fun _ source _ found => has_handOn source found)
    (SlotSets.Shaped graph) (fun _ source shaped => shaped_handOn source shaped)
    (analysis.shaped_lookaheads graph) isSource ?_
  intro sets shaped grown
  refine has_foldl_of_mem SlotSets.Has (fun _ _ _ found => found.add _ _)
    (SlotSets.Shaped graph) (fun _ _ shaped => shaped.add _ _) shaped
    isLink ?_
  intro later laterShaped _
  refine SlotSets.mem_get_add.mpr (.inr ⟨rfl, ?_, ?_⟩)
  · rwa [SlotSets.isSome_row?_iff laterShaped]
  · exact grown (entry.1, symbol) member

end Analysis
end Table
end ParserGenerator
