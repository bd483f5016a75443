import ParserGenerator.Ascending
import ParserGenerator.Lexical.Nfa
import ParserGenerator.Lexical.State
import ParserGenerator.Reach
import Std.Data.HashMap

/-!
# Subset construction

A state of the deterministic automaton stands for a set of nodes and the
conditions decided so far at the current place. A set with an undecided
condition becomes a state that branches on it. Otherwise the boundaries of
all outgoing ranges cut the units into intervals in which the target depends
on the category alone. Intervals that behave like the units outside all
ranges are left out, and equal neighbours are joined.
-/

namespace ParserGenerator
namespace Lexical

/-- What a state stands for. -/
structure Key where
  /-- The nodes, ascending. -/
  nodes : List Nat
  /-- The nodes whose conditions are decided, ascending, with the answers. -/
  decided : List (Nat × Bool)
  deriving DecidableEq, Hashable

/-- Where an edge leads without reading anything, given what is decided at
its source. -/
def Edge.freeTarget? (decision : Option Bool) : Edge → Option Nat
  | .free target => some target
  | .units _ _ => none
  | .test _ negated target =>
      match decision with
      | some holds => if holds != negated then some target else none
      | none => none

/-- The condition that an edge tests. -/
def Edge.condition? : Edge → Option Nat
  | .test condition _ _ => some condition
  | _ => none

/-- The set and the target of an edge that reads a unit. -/
def Edge.reading? : Edge → Option (CharSet × Nat)
  | .units characters target => some (characters, target)
  | _ => none

namespace Nfa

/-- The node with the given number. -/
def node (nfa : Nfa) (number : Nat) : Node :=
  nfa.nodes[number]?.getD ⟨[], none, none⟩

/-- The nodes next to a node without reading anything. -/
def freeTargets (nfa : Nfa) (decided : List (Nat × Bool)) (number : Nat) :
    List Nat :=
  (nfa.node number).edges.filterMap
    (Edge.freeTarget? (decided.lookup number))

/-- The nodes reachable from some nodes without reading anything. -/
def closure (nfa : Nfa) (decided : List (Nat × Bool)) (seeds : List Nat) :
    List Nat :=
  reachable nfa.nodes.size (nfa.freeTargets decided) seeds

/-- The condition tested at a node. -/
def condition? (nfa : Nfa) (number : Nat) : Option Nat :=
  (nfa.node number).edges.findSome? Edge.condition?

/-- The first node of a key with an undecided condition, and the condition. -/
def undecided? (nfa : Nfa) (key : Key) : Option (Nat × Nat) :=
  key.nodes.findSome? fun number =>
    match key.decided.lookup number with
    | some _ => none
    | none => (nfa.condition? number).map (number, ·)

/-- The lowest terminal accepted at some nodes. -/
def terminal? (nfa : Nfa) (nodes : List Nat) : Option Nat :=
  (nodes.filterMap fun number =>
    match (nfa.node number).accept with
    | some (.terminal index) => some index
    | _ => none).min?

/-- Whether a condition is met at some nodes. -/
def meetsCondition (nfa : Nfa) (nodes : List Nat) : Bool :=
  nodes.any fun number => (nfa.node number).accept == some .condition

/-- The lazy terminals accepted at some nodes. -/
def finished (nfa : Nfa) (isLazy : Nat → Bool) (nodes : List Nat) :
    List Nat :=
  nodes.filterMap fun number =>
    match (nfa.node number).accept with
    | some (.terminal index) => if isLazy index then some index else none
    | _ => none

/-- The reading edges of some nodes. A condition that is met reads no
further, and neither does a lazy terminal that is accepted. -/
def readingEdges (nfa : Nfa) (isLazy : Nat → Bool) (nodes : List Nat) :
    List (CharSet × Nat) :=
  if nfa.meetsCondition nodes then
    []
  else
    let finished := nfa.finished isLazy nodes
    nodes.flatMap fun number =>
      let node := nfa.node number
      if node.owner.any finished.contains then
        []
      else
        node.edges.filterMap Edge.reading?

end Nfa

/-! ## Intervals of units -/

/-- The categories of the units at a point that a set holds, where no point
means a unit outside every range. -/
def heldCategories (point : Option Nat) : CharSet → Categories
  | .plain members => listed members
  | .except members excluded =>
      (listed members).subtract (heldCategories point excluded)
where
  /-- The categories of the units at the point that are listed. -/
  listed (members : Members) : Categories :=
    if point.any members.ranges.contains then
      Categories.all
    else
      members.categories

/-- The ends of the ranges of a set, as the first units of intervals. -/
def boundaries : CharSet → List Nat
  | .plain members => ends members
  | .except members excluded => ends members ++ boundaries excluded
where
  /-- The ends of the listed ranges. -/
  ends (members : Members) : List Nat :=
    members.ranges.ranges.flatMap fun range =>
      [min range.first supplementaryFirst,
        min (range.last + 1) supplementaryFirst]

/-- The intervals between neighbouring boundaries. -/
def intervalsBetween : List Nat → List CodeRange
  | first :: next :: rest => ⟨first, next - 1⟩ :: intervalsBetween (next :: rest)
  | _ => []

/-- The intervals of units on which membership in the sets of some edges
depends on the category alone. -/
def intervals (edges : List (CharSet × Nat)) : List CodeRange :=
  intervalsBetween <| ascending <|
    [0, surrogateFirst, surrogateLast + 1, supplementaryFirst] ++
      edges.flatMap fun edge => boundaries edge.1

/-- The edges that units at a point may take, with the categories for which
they may. -/
def openEdges (edges : List (CharSet × Nat)) (point : Option Nat) :
    List (Categories × Nat) :=
  (edges.map fun edge => (heldCategories point edge.1, edge.2)).filter
    fun edge => !edge.1.isEmpty

/-- The targets of the open edges for a category. -/
def targets (edges : List (Categories × Nat)) (category : Category) :
    List Nat :=
  ascending <|
    (edges.filter fun edge => edge.1.contains category).map (·.2)

/-- The categories of units that are not surrogates. -/
def unitCategories : List Category :=
  Category.all.filter (· != .surrogate)

/-- The target states of the units at a point for each category. -/
abbrev Row := List (Option Nat)

/-- The common target of a row, if all are equal. -/
def uniform? : Row → Option (Option Nat)
  | [] => none
  | first :: rest => if rest.all (· == first) then some first else none

/-- The categories of a row with the given target. -/
def categoriesWith (row : Row) (target : Nat) : Categories :=
  Categories.ofList <|
    ((unitCategories.zip row).filter fun entry =>
      entry.2 == some target).map (·.1)

/-- The targets of a row, by category unless all are equal. -/
def Dispatch.ofRow (row : Row) : Dispatch :=
  match uniform? row with
  | some target => ⟨[], target⟩
  | none =>
      ⟨(ascending (row.filterMap id)).map fun target =>
        ⟨categoriesWith row target, target⟩, none⟩

/-- The target states of the units in an interval. -/
inductive Cell
  /-- Surrogates have one target. -/
  | surrogate (target : Option Nat)
  /-- Other units have a target for each category. -/
  | plain (row : Row)

/-- The transitions of an interval, unless they are those outside. -/
def Cell.dispatch? (outside : Row) : Cell → Option Dispatch
  | surrogate target =>
      if target = (Dispatch.ofRow outside).otherwise then
        none
      else
        some ⟨[], target⟩
  | plain row => if row = outside then none else some (Dispatch.ofRow row)

/-- Join neighbouring ranges with the same transitions. -/
def joinRanges : List RangeTransition → List RangeTransition
  | [] => []
  | transition :: rest =>
      match joinRanges rest with
      | next :: others =>
          if transition.range.last + 1 = next.range.first ∧
              transition.dispatch = next.dispatch then
            ⟨⟨transition.range.first, next.range.last⟩, next.dispatch⟩ ::
              others
          else
            transition :: next :: others
      | [] => [transition]

/-- The transitions by range that the cells of all intervals amount to. -/
def compress (outside : Row) (cells : List (CodeRange × Cell)) :
    List RangeTransition :=
  joinRanges <| cells.filterMap fun (range, cell) =>
    (cell.dispatch? outside).map (RangeTransition.mk range)

/-! ## Numbering the states -/

/-- The states found so far. -/
structure Numbering where
  /-- What the states stand for, by number. -/
  keys : Array Key
  /-- The numbers of the keys. -/
  numbers : Std.HashMap Key Nat
  /-- The states of the sets of nodes asked for so far. -/
  known : Std.HashMap (List Nat) Nat

namespace Numbering

/-- No states. -/
def empty : Numbering := ⟨#[], ∅, ∅⟩

/-- The number of a key, which is new if the key has none yet. -/
def number (numbering : Numbering) (key : Key) : Numbering × Nat :=
  match numbering.numbers[key]? with
  | some found => (numbering, found)
  | none =>
      let fresh := numbering.keys.size
      ({ numbering with
          keys := numbering.keys.push key
          numbers := numbering.numbers.insert key fresh }, fresh)

/-- The state of the nodes reachable from some nodes; none if there are no
nodes. -/
def stateOf (numbering : Numbering) (nfa : Nfa) (seeds : List Nat) :
    Numbering × Option Nat :=
  if seeds.isEmpty then
    (numbering, none)
  else
    match numbering.known[seeds]? with
    | some found => (numbering, some found)
    | none =>
        let (numbering, found) :=
          numbering.number ⟨nfa.closure [] seeds, []⟩
        ({ numbering with known := numbering.known.insert seeds found },
          some found)

/-- The states of several sets of nodes. -/
def statesOf (numbering : Numbering) (nfa : Nfa) :
    List (List Nat) → Numbering × List (Option Nat)
  | [] => (numbering, [])
  | seeds :: rest =>
      let (numbering, found) := numbering.stateOf nfa seeds
      let (numbering, others) := numbering.statesOf nfa rest
      (numbering, found :: others)

/-- The row of the units at a point. -/
def row (numbering : Numbering) (nfa : Nfa) (edges : List (CharSet × Nat))
    (point : Option Nat) : Numbering × Row :=
  let edges := openEdges edges point
  numbering.statesOf nfa (unitCategories.map (targets edges))

/-- The cell of an interval. -/
def cell (numbering : Numbering) (nfa : Nfa) (edges : List (CharSet × Nat))
    (interval : CodeRange) : Numbering × Cell :=
  if isSurrogate interval.first then
    let (numbering, target) := numbering.stateOf nfa <|
      targets (openEdges edges (some interval.first)) .surrogate
    (numbering, .surrogate target)
  else
    let (numbering, row) := numbering.row nfa edges (some interval.first)
    (numbering, .plain row)

/-- The cells of several intervals. -/
def cells (numbering : Numbering) (nfa : Nfa)
    (edges : List (CharSet × Nat)) :
    List CodeRange → Numbering × List (CodeRange × Cell)
  | [] => (numbering, [])
  | interval :: rest =>
      let (numbering, cell) := numbering.cell nfa edges interval
      let (numbering, others) := numbering.cells nfa edges rest
      (numbering, (interval, cell) :: others)

/-- Add a decision in the order of the nodes. -/
def decide (node : Nat) (holds : Bool) :
    List (Nat × Bool) → List (Nat × Bool)
  | [] => [(node, holds)]
  | (other, answer) :: rest =>
      if node < other then
        (node, holds) :: (other, answer) :: rest
      else
        (other, answer) :: decide node holds rest

/-- The state of a key with one more decision. -/
def branch (numbering : Numbering) (nfa : Nfa) (key : Key) (node : Nat)
    (holds : Bool) : Numbering × Nat :=
  let decided := decide node holds key.decided
  numbering.number ⟨nfa.closure decided key.nodes, decided⟩

/-- The entry node of a condition. -/
def conditionEntry (nfa : Nfa) (condition : Nat) : Nat :=
  nfa.conditions[condition]?.getD 0

/-- The state that a key stands for. -/
def expand (numbering : Numbering) (nfa : Nfa) (isLazy : Nat → Bool)
    (key : Key) : Numbering × State :=
  match nfa.undecided? key with
  | some (node, condition) =>
      let (numbering, start) := numbering.number
        ⟨nfa.closure [] [conditionEntry nfa condition], []⟩
      let (numbering, onTrue) := numbering.branch nfa key node true
      let (numbering, onFalse) := numbering.branch nfa key node false
      (numbering,
        ⟨[], Dispatch.nowhere, false, none, some ⟨start, onTrue, onFalse⟩⟩)
  | none =>
      let edges := nfa.readingEdges isLazy key.nodes
      let (numbering, outside) := numbering.row nfa edges none
      let (numbering, cells) := numbering.cells nfa edges (intervals edges)
      let terminal := nfa.terminal? key.nodes
      (numbering,
        ⟨compress outside cells, Dispatch.ofRow outside,
          terminal.isSome || nfa.meetsCondition key.nodes, terminal, none⟩)

/-- Expand the keys that have no state yet, in the order of their numbers. -/
def expandAll (nfa : Nfa) (isLazy : Nat → Bool) :
    (fuel : Nat) → Numbering → Array State → Array State
  | 0, _, states => states
  | fuel + 1, numbering, states =>
      match numbering.keys[states.size]? with
      | none => states
      | some key =>
          let (numbering, state) := numbering.expand nfa isLazy key
          expandAll nfa isLazy fuel numbering (states.push state)

end Numbering

/-- The number of keys that an automaton can have: each node is in or out,
and its condition is undecided, true or false. -/
def keyCount (nfa : Nfa) : Nat := nfa.nodes.foldl (fun count _ => count * 6) 1

/-- The states of the deterministic automaton, which starts in state zero. -/
def determinize (nfa : Nfa) (isLazy : Nat → Bool) : Array State :=
  let (numbering, _) := Numbering.empty.stateOf nfa [0]
  numbering.expandAll nfa isLazy (keyCount nfa + 1) #[]

end Lexical
end ParserGenerator
