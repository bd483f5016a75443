import ParserGenerator.Reach
import ParserGenerator.Table.Rules

/-!
# Item sets without lookaheads

A state is known by its kernel, the items that were reached by moving over a
symbol. The closure of a kernel adds the productions that its items call for.
Moving the dots of a closure over a symbol gives the kernel of another state.
-/

namespace ParserGenerator
namespace Table

/-- The kernels of all states and the transitions between them. -/
structure KernelGraph where
  /-- The kernels, addressed by the number of the state. -/
  kernels : Array (List Item)
  /-- The transitions of each state in the order of the symbols. -/
  gotos : Array (List (SymbolId × Nat))

namespace Rules

/-- The productions that are called for by some items, directly or through
each other. -/
def calledFor (rules : Rules) (items : List Item) : List ProductionId :=
  reachable rules.grammar.productions.size
    (fun production => rules.predicted ⟨production, 0⟩)
    (items.flatMap rules.predicted)

/-- The closure of a kernel, in order. -/
def closure (rules : Rules) (kernel : List Item) : List Item :=
  Item.sort (kernel ++ (rules.calledFor kernel).map (Item.mk · 0))

/-- The kernels that follow a kernel, in the order of the symbols. -/
def moves (rules : Rules) (kernel : List Item) :
    List (SymbolId × List Item) :=
  let items := rules.closure kernel
  (ascending (items.filterMap rules.next?)).map fun symbol =>
    (symbol,
      (items.filter fun item => rules.next? item == some symbol).map
        Item.advance)

/-- The number of a kernel, which is new if it has none yet. -/
def numberKernel (kernels : Array (List Item)) (kernel : List Item) :
    Array (List Item) × Nat :=
  match kernels.findIdx? (· == kernel) with
  | some found => (kernels, found)
  | none => (kernels.push kernel, kernels.size)

/-- The numbers of the kernels that moves lead to. -/
def numberMoves (kernels : Array (List Item)) :
    List (SymbolId × List Item) →
      Array (List Item) × List (SymbolId × Nat)
  | [] => (kernels, [])
  | (symbol, kernel) :: rest =>
      let (kernels, target) := numberKernel kernels kernel
      let (kernels, others) := numberMoves kernels rest
      (kernels, (symbol, target) :: others)

/-- Find the transitions of the kernels that have none yet, in the order of
their numbers. -/
def exploreKernels (rules : Rules) : (fuel : Nat) → KernelGraph → KernelGraph
  | 0, graph => graph
  | fuel + 1, graph =>
      match graph.kernels[graph.gotos.size]? with
      | none => graph
      | some kernel =>
          let (kernels, edges) :=
            numberMoves graph.kernels (rules.moves kernel)
          exploreKernels rules fuel ⟨kernels, graph.gotos.push edges⟩

/-- The number of items of all productions, that of the goal included. -/
def itemCount (rules : Rules) : Nat :=
  rules.grammar.productions.toList.foldr
    (fun production total => production.body.length + 1 + total) 2

/-- All kernels that can be reached from the start of the goal. There are no
more kernels than sets of items. -/
def kernelGraph (rules : Rules) : KernelGraph :=
  exploreKernels rules ((1 <<< rules.itemCount) + 1)
    ⟨#[[⟨rules.accept, 0⟩]], #[]⟩

end Rules
end Table
end ParserGenerator
