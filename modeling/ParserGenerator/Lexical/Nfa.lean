import ParserGenerator.Pattern
import ParserGenerator.Text.Units

/-!
# Nondeterministic automata over code units

Each pattern becomes a fragment with an entry and an exit. A character set is
lowered to units: its part below the supplementary code points is one edge,
and its supplementary part is a choice of high surrogates, each followed by
its low surrogates. A lookahead condition is a fragment of its own that an
edge refers to by number.
-/

namespace ParserGenerator
namespace Lexical

/-- What reaching a node means. -/
inductive Accept
  | terminal (index : Nat)
  | condition
  deriving DecidableEq

/-- A way from a node to another one. -/
inductive Edge
  /-- Without reading anything. -/
  | free (target : Nat)
  /-- By reading one unit of a set. -/
  | units (characters : CharSet) (target : Nat)
  /-- If a condition holds here, or if it does not. -/
  | test (condition : Nat) (negated : Bool) (target : Nat)

/-- A node with its outgoing edges. -/
structure Node where
  /-- The outgoing edges. -/
  edges : List Edge
  /-- What reaching the node means. -/
  accept : Option Accept
  /-- The terminal whose pattern the node belongs to; none in conditions. -/
  owner : Option Nat

/-- A nondeterministic automaton. -/
structure Nfa where
  /-- The nodes, addressed by number. -/
  nodes : Array Node
  /-- The entry node of each lookahead condition. -/
  conditions : Array Nat
  /-- Whether letters match in either case. -/
  anyCase : Bool

/-- The entry and the exit of a compiled pattern. -/
structure Fragment where
  /-- Where the pattern starts. -/
  entry : Nat
  /-- Where the pattern has matched. -/
  exit : Nat

/-- The low surrogates that follow each high surrogate of a range. -/
def surrogateBlocks (range : CodeRange) : List (Nat × CodeRange) :=
  let firstHigh := highSurrogate range.first
  let lastHigh := highSurrogate range.last
  (List.range (lastHigh - firstHigh + 1)).map fun offset =>
    let high := firstHigh + offset
    (high,
      ⟨if high = firstHigh then lowSurrogate range.first
        else lowSurrogateFirst,
        if high = lastHigh then lowSurrogate range.last
        else surrogateLast⟩)

/-- Collect the low surrogates of neighbouring entries with one high
surrogate. -/
def groupByHigh :
    List (Nat × CodeRange) → List (Nat × List CodeRange)
  | [] => []
  | (high, low) :: rest =>
      match groupByHigh rest with
      | (next, lows) :: groups =>
          if high = next then
            (high, low :: lows) :: groups
          else
            (high, [low]) :: (next, lows) :: groups
      | [] => [(high, [low])]

/-- Join neighbouring high surrogates with the same low surrogates. -/
def joinHighs :
    List (Nat × RangeList) → List (CodeRange × RangeList)
  | [] => []
  | (high, lows) :: rest =>
      match joinHighs rest with
      | (range, others) :: runs =>
          if high + 1 = range.first ∧ lows = others then
            (⟨high, range.last⟩, lows) :: runs
          else
            (CodeRange.single high, lows) :: (range, others) :: runs
      | [] => [(CodeRange.single high, lows)]

/-- Supplementary code points as runs of high surrogates that share their low
surrogates. -/
def surrogatePairs (supplementary : RangeList) :
    List (CodeRange × RangeList) :=
  joinHighs <|
    (groupByHigh (supplementary.ranges.flatMap surrogateBlocks)).map
      fun (high, lows) => (high, RangeList.ofRanges lows)

namespace Nfa

/-- The automaton without nodes. -/
def empty (anyCase : Bool) : Nfa := ⟨#[], #[], anyCase⟩

/-- Add a node and return its number. -/
def addNode (nfa : Nfa) (owner : Option Nat) : Nfa × Nat :=
  ({ nfa with nodes := nfa.nodes.push ⟨[], none, owner⟩ }, nfa.nodes.size)

/-- Add an edge to a node. -/
def addEdge (nfa : Nfa) (source : Nat) (edge : Edge) : Nfa :=
  { nfa with
    nodes := nfa.nodes.modify source fun node =>
      { node with edges := node.edges ++ [edge] } }

/-- Say what reaching a node means. -/
def setAccept (nfa : Nfa) (node : Nat) (accept : Accept) : Nfa :=
  { nfa with
    nodes := nfa.nodes.modify node fun node =>
      { node with accept := some accept } }

/-- Add the ways over a high and a low surrogate between two nodes. -/
def addPairs (nfa : Nfa) (owner : Option Nat) (fragment : Fragment) :
    List (CodeRange × RangeList) → Nfa
  | [] => nfa
  | (high, lows) :: rest =>
      let (nfa, middle) := nfa.addNode owner
      let nfa := nfa.addEdge fragment.entry
        (.units (CharSet.ofRanges ⟨[high]⟩) middle)
      let nfa := nfa.addEdge middle
        (.units (CharSet.ofRanges lows) fragment.exit)
      nfa.addPairs owner fragment rest

variable [CharacterData]

/-- The fragment that reads one character of a set. -/
def compileSet (nfa : Nfa) (owner : Option Nat) (characters : CharSet) :
    Nfa × Fragment :=
  let characters :=
    if nfa.anyCase then characters.toAnyCase else characters
  let (nfa, entry) := nfa.addNode owner
  let (nfa, exit) := nfa.addNode owner
  let units := characters.toUnits
  let nfa :=
    if units.isEmpty then nfa else nfa.addEdge entry (.units units exit)
  (nfa.addPairs owner ⟨entry, exit⟩
    (surrogatePairs characters.supplementary), ⟨entry, exit⟩)

/-- Read characters one after the other from `exit` on and return the new
exit. -/
def compileText (nfa : Nfa) (owner : Option Nat) (exit : Nat) :
    List Char → Nfa × Nat
  | [] => (nfa, exit)
  | character :: rest =>
      let (nfa, fragment) :=
        nfa.compileSet owner (CharSet.single character.toNat)
      let nfa := nfa.addEdge exit (.free fragment.entry)
      nfa.compileText owner fragment.exit rest

mutual

/-- The fragment of a pattern. -/
def compile (nfa : Nfa) (owner : Option Nat) : Pattern → Nfa × Fragment
  | .text content =>
      let (nfa, entry) := nfa.addNode owner
      let (nfa, exit) := nfa.compileText owner entry content.toList
      (nfa, ⟨entry, exit⟩)
  | .set characters => nfa.compileSet owner characters
  | .concat items =>
      let (nfa, entry) := nfa.addNode owner
      let (nfa, exit) := nfa.compileSequence owner entry items
      (nfa, ⟨entry, exit⟩)
  | .alternate items =>
      let (nfa, entry) := nfa.addNode owner
      let (nfa, exit) := nfa.addNode owner
      (nfa.compileBranches owner ⟨entry, exit⟩ items, ⟨entry, exit⟩)
  | .repeat item repetition =>
      let (nfa, entry) := nfa.addNode owner
      let (nfa, exit) := nfa.addNode owner
      let (nfa, fragment) := nfa.compile owner item
      let nfa := nfa.addEdge entry (.free fragment.entry)
      let nfa := nfa.addEdge fragment.exit (.free exit)
      let nfa :=
        if repetition = .optional then
          nfa
        else
          nfa.addEdge fragment.exit (.free fragment.entry)
      let nfa :=
        if repetition = .oneOrMore then
          nfa
        else
          nfa.addEdge entry (.free exit)
      (nfa, ⟨entry, exit⟩)
  | .lookahead condition negated =>
      let (nfa, fragment) := nfa.compile none condition
      let nfa := nfa.setAccept fragment.exit .condition
      let number := nfa.conditions.size
      let nfa :=
        { nfa with conditions := nfa.conditions.push fragment.entry }
      let (nfa, entry) := nfa.addNode owner
      let (nfa, exit) := nfa.addNode owner
      (nfa.addEdge entry (.test number negated exit), ⟨entry, exit⟩)

/-- Patterns one after the other from `exit` on; returns the new exit. -/
def compileSequence (nfa : Nfa) (owner : Option Nat) (exit : Nat) :
    List Pattern → Nfa × Nat
  | [] => (nfa, exit)
  | item :: rest =>
      let (nfa, fragment) := nfa.compile owner item
      let nfa := nfa.addEdge exit (.free fragment.entry)
      nfa.compileSequence owner fragment.exit rest

/-- Patterns side by side between two nodes. -/
def compileBranches (nfa : Nfa) (owner : Option Nat) (outer : Fragment) :
    List Pattern → Nfa
  | [] => nfa
  | item :: rest =>
      let (nfa, fragment) := nfa.compile owner item
      let nfa := nfa.addEdge outer.entry (.free fragment.entry)
      let nfa := nfa.addEdge fragment.exit (.free outer.exit)
      nfa.compileBranches owner outer rest

end

/-- Add the patterns of the terminals numbered from `index` on, each
reachable from the node `start`. -/
def addTerminals (nfa : Nfa) (start index : Nat) : List Pattern → Nfa
  | [] => nfa
  | pattern :: rest =>
      let (nfa, fragment) := nfa.compile (some index) pattern
      let nfa := nfa.setAccept fragment.exit (.terminal index)
      let nfa := nfa.addEdge start (.free fragment.entry)
      nfa.addTerminals start (index + 1) rest

/-- The automaton of some terminals, which starts at node zero. -/
def ofPatterns (anyCase : Bool) (patterns : List Pattern) : Nfa :=
  let (nfa, start) := (empty anyCase).addNode none
  nfa.addTerminals start 0 patterns

end Nfa
end Lexical
end ParserGenerator
