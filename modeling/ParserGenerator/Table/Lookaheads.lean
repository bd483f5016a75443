import ParserGenerator.Table.First
import ParserGenerator.Table.Kernels

/-!
# Lookaheads

The symbols that may follow each kernel item once it is complete. A closure
that starts from a single kernel item with a fresh symbol as its lookahead
shows which lookaheads arise in the following states by themselves and which
are handed on from the item. Handing on is repeated until nothing changes.
-/

namespace ParserGenerator
namespace Table

/-- A kernel item of a state. -/
structure Slot where
  /-- The state. -/
  state : Nat
  /-- The position in the kernel. -/
  index : Nat
  deriving DecidableEq

/-- The lookaheads of the kernel items of each state. -/
abbrev SlotSets := Array (Array SymbolSet)

namespace SlotSets

/-- The lookaheads of a kernel item. -/
def get (sets : SlotSets) (slot : Slot) : SymbolSet :=
  (sets[slot.state]?.bind (·[slot.index]?)).getD []

/-- Add to the lookaheads of a kernel item. -/
def add (sets : SlotSets) (slot : Slot) (symbols : SymbolSet) : SlotSets :=
  sets.modify slot.state fun row =>
    row.modify slot.index (mergeAscending · symbols)

end SlotSets

/-- An item with its lookaheads. -/
abbrev LookaheadItem := Item × SymbolSet

/-- Rules with the first sets of their grammar. -/
structure Analysis where
  /-- The rules. -/
  rules : Rules
  /-- The first sets. -/
  firsts : FirstSets

namespace Analysis

/-- The non-terminal after the dot of an item, and the symbols that may
follow it there. -/
def contribution? (analysis : Analysis) (item : LookaheadItem) :
    Option (SymbolId × SymbolSet) :=
  match (analysis.rules.body item.1.production).drop item.1.dot with
  | [] => none
  | symbol :: rest =>
      if analysis.rules.grammar.isNonTerminal symbol then
        let override :=
          analysis.rules.grammar.productions[item.1.production]?.bind
            (·.lookaheadOverride? symbol)
        some (symbol,
          override.getD (analysis.firsts.leadingBefore rest item.2))
      else
        none

/-- Add what an item contributes to the symbols that may follow each
non-terminal. -/
def contribute (analysis : Analysis) (following : Array SymbolSet)
    (item : LookaheadItem) : Array SymbolSet :=
  match analysis.contribution? item with
  | some (symbol, symbols) =>
      following.modify symbol (mergeAscending · symbols)
  | none => following

/-- The symbols that may follow the head of a production. -/
def followingHead (analysis : Analysis) (following : Array SymbolSet)
    (production : ProductionId) : SymbolSet :=
  ((analysis.rules.head? production).bind (following[·]?)).getD []

/-- One pass over the productions of a closure. -/
def followingPass (analysis : Analysis) (called : List ProductionId)
    (following : Array SymbolSet) : Array SymbolSet :=
  called.foldl (fun following production =>
    analysis.contribute following
      (⟨production, 0⟩, analysis.followingHead following production))
    following

/-- The closure of kernel items with lookaheads, in order. All productions of
a non-terminal share their lookaheads, so these are computed for each
non-terminal; each pass but the last adds a member to one of the sets. -/
def closure (analysis : Analysis) (kernel : List LookaheadItem) :
    List LookaheadItem :=
  let count := analysis.rules.grammar.symbols.size
  let called := analysis.rules.calledFor (kernel.map (·.1))
  let start := kernel.foldl analysis.contribute (Array.replicate count [])
  let following :=
    (settle (analysis.followingPass called)
      (count * (count + 1) + 1) start).value
  let added : List LookaheadItem := called.map fun production =>
    (⟨production, 0⟩, analysis.followingHead following production)
  sortBy (fun left right => left.1.le right.1) (kernel ++ added)

/-- A symbol that stands for whatever may follow a kernel item. -/
def fresh (analysis : Analysis) : SymbolId :=
  analysis.rules.grammar.symbols.size

/-- The kernel item that an item of a state leads to. -/
def target? (analysis : Analysis) (graph : KernelGraph) (state : Nat)
    (item : Item) : Option Slot := do
  let symbol ← analysis.rules.next? item
  let edges ← graph.gotos[state]?
  let target ← edges.lookup symbol
  let kernel ← graph.kernels[target]?
  let index ← kernel.findIdx? (· == item.advance)
  return ⟨target, index⟩

/-- The kernel items that a kernel item leads to, with the lookaheads that
they get from it. -/
def arrivals (analysis : Analysis) (graph : KernelGraph) (state : Nat)
    (item : Item) : List (Slot × SymbolSet) :=
  (analysis.closure [(item, [analysis.fresh])]).filterMap
    fun (reached, symbols) =>
      (analysis.target? graph state reached).map (·, symbols)

/-- The kernel items of all states in order. -/
def slots (graph : KernelGraph) : List (Slot × Item) :=
  (graph.kernels.toList.zipIdx).flatMap fun (kernel, state) =>
    kernel.zipIdx.map fun (item, index) => (⟨state, index⟩, item)

/-- The arrivals from each kernel item. -/
def allArrivals (analysis : Analysis) (graph : KernelGraph) :
    List (Slot × List (Slot × SymbolSet)) :=
  (slots graph).map fun (slot, item) =>
    (slot, analysis.arrivals graph slot.state item)

/-- Add the lookaheads that arise by themselves. -/
def spontaneous (analysis : Analysis) (sets : SlotSets)
    (arrivals : List (Slot × SymbolSet)) : SlotSets :=
  arrivals.foldl (fun sets (target, symbols) =>
    sets.add target (symbols.filter (· != analysis.fresh))) sets

/-- The kernel items to which lookaheads are handed on. -/
def links (analysis : Analysis) (arrivals : List (Slot × SymbolSet)) :
    List Slot :=
  (arrivals.filter fun arrival =>
    arrival.2.contains analysis.fresh).map (·.1)

/-- Hand on the lookaheads of one kernel item. -/
def handOn (sets : SlotSets) (source : Slot × List Slot) : SlotSets :=
  let symbols := sets.get source.1
  source.2.foldl (fun sets target => sets.add target symbols) sets

/-- One pass of handing on. -/
def handOnPass (sources : List (Slot × List Slot)) (sets : SlotSets) :
    SlotSets :=
  sources.foldl handOn sets

/-- The lookaheads of all kernel items and the number of passes that they
took. Each pass but the last adds a member to one of the sets. -/
def lookaheads (analysis : Analysis) (graph : KernelGraph) :
    Settled SlotSets :=
  let empty : SlotSets :=
    graph.kernels.map fun kernel => Array.replicate kernel.length []
  let arrivals := analysis.allArrivals graph
  let start := arrivals.foldl
    (fun sets entry => analysis.spontaneous sets entry.2)
    (empty.add ⟨0, 0⟩ [Grammar.endSymbol])
  settle
    (handOnPass (arrivals.map fun entry =>
      (entry.1, analysis.links entry.2)))
    ((slots graph).length * analysis.rules.grammar.symbols.size + 1) start

end Analysis
end Table
end ParserGenerator
