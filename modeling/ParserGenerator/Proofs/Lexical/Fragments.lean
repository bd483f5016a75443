import Mathlib.Data.List.Forall2
import ParserGenerator.Proofs.Lexical.Construction
import ParserGenerator.Proofs.Lexical.Matching

/-!
# Compiled fragments

Compiling a pattern adds a fragment of fresh nodes and changes no other node.
The exit of the fragment has no edges yet, and the automaton stays tidy. The
conditions that are added are those of the lookaheads in the pattern, the inner
ones before the outer ones.
-/

namespace ParserGenerator

namespace Pattern

mutual

/-- The conditions in a pattern, inner ones before outer ones. -/
def lookaheads : Pattern → List Pattern
  | text _ => []
  | set _ => []
  | concat items => allLookaheads items
  | alternate items => allLookaheads items
  | .repeat item _ => item.lookaheads
  | lookahead condition _ => condition.lookaheads ++ [condition]

/-- The conditions in some patterns. -/
def allLookaheads : List Pattern → List Pattern
  | [] => []
  | item :: rest => item.lookaheads ++ allLookaheads rest

end

end Pattern

namespace Lexical
namespace Nfa

variable {owner : Option Nat} {base result middle : Nfa}
  {changed : Nat → Prop}

/-- The construction went on from the `changed` nodes to an exit without
edges. -/
structure Continues (owner : Option Nat) (changed : Nat → Prop) (exit : Nat)
    (base result : Nfa) : Prop where
  /-- No other node changes. -/
  growth : Extends changed base result
  /-- The exit exists. -/
  inside : exit < result.nodes.size
  /-- The exit is new or among the nodes that change. -/
  fresh : changed exit ∨ base.nodes.size ≤ exit
  /-- The exit has no edges yet. -/
  record : result.node exit = ⟨[], none, owner⟩
  /-- The automaton stays tidy. -/
  tidy : ∀ {low}, low ≤ base.nodes.size → (∀ node, changed node → low ≤ node) →
    base.Tidy low → result.Tidy low

/-- A fragment of fresh nodes was built. -/
structure Builds (owner : Option Nat) (base result : Nfa)
    (fragment : Fragment) : Prop
    extends Continues owner (fun _ => False) fragment.exit base result where
  /-- The entry is new. -/
  entryFresh : base.nodes.size ≤ fragment.entry
  /-- The entry exists. -/
  entryInside : fragment.entry < result.nodes.size
  /-- The entry has the owner of the fragment. -/
  entryOwner : (result.node fragment.entry).owner = owner

theorem Builds.exitFresh
    {fragment : Fragment}
    (builds : Builds owner base result fragment) :
    base.nodes.size ≤ fragment.exit :=
  builds.fresh.resolve_left id

/-! ## Characters -/

section Pairs

variable {fragment : Fragment} {run : CodeRange × RangeList}
  {runs : List (CodeRange × RangeList)}

/-- Add one way over a high and a low surrogate. -/
def addPair (nfa : Nfa) (owner : Option Nat) (fragment : Fragment)
    (run : CodeRange × RangeList) : Nfa :=
  ((nfa.addNode owner).1.addEdge fragment.entry
    (.units (CharSet.ofRanges ⟨[run.1]⟩) nfa.nodes.size)).addEdge
      nfa.nodes.size (.units (CharSet.ofRanges run.2) fragment.exit)

theorem addPairs_cons :
    base.addPairs owner fragment (run :: runs) =
      (base.addPair owner fragment run).addPairs owner fragment runs := rfl

@[simp] theorem size_addPair :
    (base.addPair owner fragment run).nodes.size = base.nodes.size + 1 := by
  simp [addPair]

theorem extends_addPair :
    Extends (· = fragment.entry) base (base.addPair owner fragment run) := by
  have growth : Extends (· = fragment.entry) base (base.addNode owner).1 :=
    (Extends.refl _ base).addNode owner
  exact (growth.addEdge (.inl rfl) _).addEdge (.inr (Nat.le_refl _)) _

theorem extends_addPairs
    (base : Nfa)
    (owner : Option Nat)
    (fragment : Fragment)
    (runs : List (CodeRange × RangeList)) :
    Extends (· = fragment.entry) base (base.addPairs owner fragment runs) := by
  induction runs generalizing base with
  | nil => exact .refl _ base
  | cons run rest inductionHypothesis =>
      rw [addPairs_cons]
      exact extends_addPair.trans (inductionHypothesis _) fun _ same => .inl same

@[simp] theorem conditions_addPairs
    (base : Nfa)
    (owner : Option Nat)
    (fragment : Fragment)
    (runs : List (CodeRange × RangeList)) :
    (base.addPairs owner fragment runs).conditions = base.conditions := by
  induction runs generalizing base with
  | nil => rfl
  | cons run rest inductionHypothesis =>
      rw [addPairs_cons, inductionHypothesis]
      rfl

theorem node_entry_addPair
    (inside : fragment.entry < base.nodes.size) :
    (base.addPair owner fragment run).node fragment.entry =
      { base.node fragment.entry with
        edges := (base.node fragment.entry).edges ++
          [.units (CharSet.ofRanges ⟨[run.1]⟩) base.nodes.size] } := by
  have notNew : fragment.entry ≠ base.nodes.size := Nat.ne_of_lt inside
  rw [addPair, node_addEdge_of_ne notNew, node_addEdge_self (by simp; omega),
    node_addNode_of_ne notNew]

theorem node_middle_addPair
    (inside : fragment.entry < base.nodes.size) :
    (base.addPair owner fragment run).node base.nodes.size =
      ⟨[.units (CharSet.ofRanges run.2) fragment.exit], none, owner⟩ := by
  have isNew : base.nodes.size ≠ fragment.entry := Nat.ne_of_gt inside
  rw [addPair, node_addEdge_self (by simp), node_addEdge_of_ne isNew,
    node_addNode_self]
  rfl

/-- The entry gets an edge for each run, to a node that leads to the exit. -/
theorem node_entry_addPairs
    (base : Nfa)
    (owner : Option Nat)
    (fragment : Fragment)
    (runs : List (CodeRange × RangeList))
    (inside : fragment.entry < base.nodes.size) :
    ∃ edges,
      (base.addPairs owner fragment runs).node fragment.entry =
        { base.node fragment.entry with
          edges := (base.node fragment.entry).edges ++ edges } ∧
      List.Forall₂ (fun edge (run : CodeRange × RangeList) => ∃ middle,
        base.nodes.size ≤ middle ∧
          middle < (base.addPairs owner fragment runs).nodes.size ∧
            edge = .units (CharSet.ofRanges ⟨[run.1]⟩) middle ∧
              (base.addPairs owner fragment runs).node middle =
                ⟨[.units (CharSet.ofRanges run.2) fragment.exit], none, owner⟩)
        edges runs := by
  induction runs generalizing base with
  | nil => exact ⟨[], by simp [addPairs], .nil⟩
  | cons run rest inductionHypothesis =>
      have stillInside :
          fragment.entry < (base.addPair owner fragment run).nodes.size := by
        rw [size_addPair]
        omega
      have growth := extends_addPairs (base.addPair owner fragment run) owner
        fragment rest
      obtain ⟨edges, entryNode, pairs⟩ := inductionHypothesis _ stillInside
      rw [addPairs_cons]
      refine ⟨.units (CharSet.ofRanges ⟨[run.1]⟩) base.nodes.size :: edges,
        ?_, .cons ⟨base.nodes.size, Nat.le_refl _, ?_, rfl, ?_⟩ ?_⟩
      · rw [entryNode, node_entry_addPair inside]
        simp
      · exact Nat.lt_of_lt_of_le (by simp) growth.size_le
      · rw [growth.node_eq (by simp) (Nat.ne_of_gt inside),
          node_middle_addPair inside]
      · refine pairs.imp fun edge other found => ?_
        obtain ⟨middle, fresh, inResult, isEdge, middleNode⟩ := found
        rw [size_addPair] at fresh
        exact ⟨middle, by omega, inResult, isEdge, middleNode⟩

theorem tidy_addPair
    {low : Nat}
    (tidy : base.Tidy low)
    (fromLow : low ≤ base.nodes.size)
    (entryInside : fragment.entry < base.nodes.size)
    (exitFromLow : low ≤ fragment.exit)
    (exitInside : fragment.exit < base.nodes.size)
    (entryOwner : (base.node fragment.entry).owner = owner)
    (exitOwner : (base.node fragment.exit).owner = owner) :
    (base.addPair owner fragment run).Tidy low := by
  refine ((tidy.addNode owner).addUnits ?_ ⟨fromLow, by simp⟩ ?_).addUnits ?_
    ⟨exitFromLow, ?_⟩ ?_
  · rw [size_addNode]
    omega
  · rw [node_addNode_self, node_addNode_of_lt entryInside, entryOwner]
  · simp
  · rw [size_addEdge, size_addNode]
    omega
  · rw [owner_addEdge, owner_addEdge, node_addNode_self,
      node_addNode_of_lt exitInside, exitOwner]

theorem tidy_addPairs
    {low : Nat}
    (tidy : base.Tidy low)
    (fromLow : low ≤ base.nodes.size)
    (entryInside : fragment.entry < base.nodes.size)
    (exitFromLow : low ≤ fragment.exit)
    (exitInside : fragment.exit < base.nodes.size)
    (entryOwner : (base.node fragment.entry).owner = owner)
    (exitOwner : (base.node fragment.exit).owner = owner) :
    (base.addPairs owner fragment runs).Tidy low := by
  induction runs generalizing base with
  | nil => exact tidy
  | cons run rest inductionHypothesis =>
      have owners {node : Nat} (inside : node < base.nodes.size) :
          ((base.addPair owner fragment run).node node).owner =
            (base.node node).owner := by
        rw [addPair, owner_addEdge, owner_addEdge, node_addNode_of_lt inside]
      rw [addPairs_cons]
      apply inductionHypothesis
      · exact tidy_addPair tidy fromLow entryInside exitFromLow exitInside
          entryOwner exitOwner
      · rw [size_addPair]
        omega
      · rw [size_addPair]
        omega
      · rw [size_addPair]
        omega
      · rw [owners entryInside, entryOwner]
      · rw [owners exitInside, exitOwner]

end Pairs

/-! ## Between two fresh nodes -/

/-- Two fresh nodes. -/
def addOuter (nfa : Nfa) (owner : Option Nat) : Nfa :=
  ((nfa.addNode owner).1.addNode owner).1

@[simp] theorem size_addOuter :
    (base.addOuter owner).nodes.size = base.nodes.size + 2 := by
  simp [addOuter]

theorem node_addOuter_entry :
    (base.addOuter owner).node base.nodes.size = ⟨[], none, owner⟩ := by
  rw [addOuter, node_addNode_of_lt (by simp), node_addNode_self]

theorem node_addOuter_exit :
    (base.addOuter owner).node (base.nodes.size + 1) = ⟨[], none, owner⟩ := by
  have isSize : base.nodes.size + 1 = (base.addNode owner).1.nodes.size :=
    size_addNode.symm
  rw [addOuter, isSize, node_addNode_self]

theorem extends_addOuter (changed : Nat → Prop) :
    Extends changed base (base.addOuter owner) :=
  ((Extends.refl _ base).addNode owner).addNode owner

theorem Tidy.addOuter
    {low : Nat}
    (tidy : base.Tidy low)
    (owner : Option Nat) :
    (base.addOuter owner).Tidy low :=
  (tidy.addNode owner).addNode owner

section Characters

/-- Two fresh nodes with the edge over the units of a set. -/
def addUnitsBetween (nfa : Nfa) (owner : Option Nat) (units : CharSet) : Nfa :=
  if units.isEmpty then
    nfa.addOuter owner
  else
    (nfa.addOuter owner).addEdge nfa.nodes.size
      (.units units (nfa.nodes.size + 1))

variable {units : CharSet} {runs : List (CodeRange × RangeList)}

@[simp] theorem size_addUnitsBetween :
    (base.addUnitsBetween owner units).nodes.size = base.nodes.size + 2 := by
  unfold addUnitsBetween
  split <;> simp

theorem extends_addUnitsBetween :
    Extends (fun _ => False) base (base.addUnitsBetween owner units) := by
  unfold addUnitsBetween
  split
  · exact extends_addOuter _
  · exact (extends_addOuter _).addEdge (.inr (Nat.le_refl _)) _

theorem node_addUnitsBetween_entry :
    (base.addUnitsBetween owner units).node base.nodes.size =
      ⟨if units.isEmpty then [] else [.units units (base.nodes.size + 1)],
        none, owner⟩ := by
  unfold addUnitsBetween
  split
  · exact node_addOuter_entry
  · rw [node_addEdge_self (by simp), node_addOuter_entry]
    rfl

theorem node_addUnitsBetween_exit :
    (base.addUnitsBetween owner units).node (base.nodes.size + 1) =
      ⟨[], none, owner⟩ := by
  unfold addUnitsBetween
  split
  · exact node_addOuter_exit
  · rw [node_addEdge_of_ne (by omega), node_addOuter_exit]

theorem tidy_addUnitsBetween
    {low : Nat}
    (tidy : base.Tidy low)
    (fromLow : low ≤ base.nodes.size) :
    (base.addUnitsBetween owner units).Tidy low := by
  unfold addUnitsBetween
  split
  · exact tidy.addOuter owner
  · refine (tidy.addOuter owner).addUnits (by simp) ⟨by omega, by simp⟩ ?_
    rw [node_addOuter_exit, node_addOuter_entry]

/-- A fragment over the units of a set and some pairs. -/
def addCharacter (nfa : Nfa) (owner : Option Nat) (units : CharSet)
    (runs : List (CodeRange × RangeList)) : Nfa :=
  (nfa.addUnitsBetween owner units).addPairs owner
    ⟨nfa.nodes.size, nfa.nodes.size + 1⟩ runs

@[simp] theorem conditions_addCharacter :
    (base.addCharacter owner units runs).conditions = base.conditions := by
  rw [addCharacter, conditions_addPairs, addUnitsBetween]
  split <;> rfl

/-- The entry leads to the exit by a unit or by a pair. -/
theorem node_addCharacter_entry :
    ∃ edges,
      (base.addCharacter owner units runs).node base.nodes.size =
        ⟨(if units.isEmpty then [] else
          [.units units (base.nodes.size + 1)]) ++ edges, none, owner⟩ ∧
      List.Forall₂ (fun edge (run : CodeRange × RangeList) => ∃ middle,
        base.nodes.size + 2 ≤ middle ∧
          middle < (base.addCharacter owner units runs).nodes.size ∧
            edge = .units (CharSet.ofRanges ⟨[run.1]⟩) middle ∧
              (base.addCharacter owner units runs).node middle =
                ⟨[.units (CharSet.ofRanges run.2) (base.nodes.size + 1)],
                  none, owner⟩)
        edges runs := by
  have inside : base.nodes.size <
      (base.addUnitsBetween owner units).nodes.size := by
    rw [size_addUnitsBetween]
    omega
  obtain ⟨edges, entryNode, pairs⟩ := node_entry_addPairs
    (base.addUnitsBetween owner units) owner
    ⟨base.nodes.size, base.nodes.size + 1⟩ runs inside
  rw [size_addUnitsBetween] at pairs
  refine ⟨edges, entryNode.trans ?_, pairs⟩
  rw [node_addUnitsBetween_entry]

theorem builds_addCharacter :
    Builds owner base (base.addCharacter owner units runs)
      ⟨base.nodes.size, base.nodes.size + 1⟩ := by
  have growth : Extends (· = base.nodes.size)
      (base.addUnitsBetween owner units)
      (base.addCharacter owner units runs) :=
    extends_addPairs _ owner ⟨base.nodes.size, base.nodes.size + 1⟩ runs
  have grown := growth.size_le
  rw [size_addUnitsBetween] at grown
  have entryOwner : ((base.addCharacter owner units runs).node
      base.nodes.size).owner = owner := by
    obtain ⟨edges, entryNode, -⟩ := @node_addCharacter_entry owner base units runs
    rw [entryNode]
  constructor
  · constructor
    · exact extends_addUnitsBetween.trans growth
        fun _ same => .inr (Nat.le_of_eq same.symm)
    · show base.nodes.size + 1 < _
      omega
    · exact .inr (Nat.le_succ _)
    · show (base.addCharacter owner units runs).node (base.nodes.size + 1) = _
      rw [growth.node_eq (by simp) (by omega), node_addUnitsBetween_exit]
    · intro low fromLow _ tidy
      have above : base.nodes.size + 1 <
          (base.addUnitsBetween owner units).nodes.size := by
        simp
      apply tidy_addPairs (tidy_addUnitsBetween tidy fromLow)
      · omega
      · exact Nat.lt_of_succ_lt above
      · exact Nat.le_succ_of_le fromLow
      · exact above
      · rw [node_addUnitsBetween_entry]
      · rw [node_addUnitsBetween_exit]
  · exact Nat.le_refl _
  · show base.nodes.size < _
    omega
  · exact entryOwner

variable [CharacterData]

theorem compileSet_eq (characters : CharSet) :
    base.compileSet owner characters =
      (base.addCharacter owner (characters.inCase base.anyCase).toUnits
          (surrogatePairs (characters.inCase base.anyCase).supplementary),
        ⟨base.nodes.size, base.nodes.size + 1⟩) := by
  have second : base.nodes.size + 1 = (base.addNode owner).1.nodes.size :=
    size_addNode.symm
  rw [addCharacter, addUnitsBetween, second]
  rfl

end Characters

end Nfa
end Lexical
end ParserGenerator
