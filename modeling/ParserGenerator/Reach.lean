/-!
# Reachable nodes

The nodes of a finite graph that can be reached from given ones. Nodes are
numbers; a node that is visited is marked and never visited again, so that no
path that is searched is longer than the number of nodes.
-/

namespace ParserGenerator

/-- Mark a node and all nodes reachable from it over unmarked ones. The fuel
bounds the length of paths. -/
def markFrom (successors : Nat → List Nat) :
    (fuel : Nat) → (marks : Array Bool) → (node : Nat) → Array Bool
  | 0, marks, _ => marks
  | fuel + 1, marks, node =>
      if marks[node]? = some false then
        (successors node).foldl (markFrom successors fuel)
          (marks.setIfInBounds node true)
      else
        marks

/-- The nodes below `size` that can be reached from `seeds`, ascending. -/
def reachable
    (size : Nat)
    (successors : Nat → List Nat)
    (seeds : List Nat) : List Nat :=
  let marks :=
    seeds.foldl (markFrom successors size) (Array.replicate size false)
  (List.range size).filter fun node => marks[node]? == some true

end ParserGenerator
