import Mathlib.Logic.Relation
import ParserGenerator.Lexical.Subset

/-!
# Building nondeterministic automata

What adding nodes, edges and conditions does to an automaton. An automaton
extends another one if it differs on new nodes and on nodes that are known to
change. From a node on an automaton is tidy if its edges stay among the nodes
of one owner from there on, tests refer to conditions that exist, and accepting
nodes belong to what they accept.
-/

namespace ParserGenerator
namespace Lexical

/-- Where an edge leads. -/
def Edge.target : Edge → Nat
  | free target => target
  | units _ target => target
  | test _ _ target => target

theorem Edge.of_freeTarget?
    {decision : Option Bool}
    {edge : Edge}
    {target : Nat}
    (leads : edge.freeTarget? decision = some target) :
    edge.reading? = none ∧ edge.target = target := by
  cases edge with
  | free next => exact ⟨rfl, Option.some.inj leads⟩
  | units characters next => cases leads
  | test condition negated next =>
      cases decision with
      | none => cases leads
      | some holds =>
          simp only [freeTarget?, Option.ite_none_right_eq_some,
            Option.some.injEq] at leads
          exact ⟨rfl, leads.2⟩

/-- The owner of the nodes that accept something. -/
def Accept.owner : Accept → Option Nat
  | terminal index => some index
  | condition => none

namespace Nfa

variable {nfa : Nfa} {owner : Option Nat} {node source : Nat} {edge : Edge}
  {accept : Accept}

/-! ## Single changes -/

theorem node_of_size_le (outside : nfa.nodes.size ≤ node) :
    nfa.node node = ⟨[], none, none⟩ := by
  rw [Nfa.node, Array.getElem?_eq_none outside, Option.getD_none]

@[simp] theorem size_addNode :
    (nfa.addNode owner).1.nodes.size = nfa.nodes.size + 1 :=
  Array.size_push _

theorem node_addNode_self :
    (nfa.addNode owner).1.node nfa.nodes.size = ⟨[], none, owner⟩ := by
  simp [Nfa.node, addNode]

theorem node_addNode_of_ne (other : node ≠ nfa.nodes.size) :
    (nfa.addNode owner).1.node node = nfa.node node := by
  rw [Nfa.node, addNode, Array.getElem?_push, if_neg other, Nfa.node]

theorem node_addNode_of_lt (inside : node < nfa.nodes.size) :
    (nfa.addNode owner).1.node node = nfa.node node :=
  node_addNode_of_ne (Nat.ne_of_lt inside)

theorem mem_edges_addNode
    (member : edge ∈ ((nfa.addNode owner).1.node node).edges) :
    edge ∈ (nfa.node node).edges ∧ node ≠ nfa.nodes.size := by
  by_cases isNew : node = nfa.nodes.size
  · rw [isNew, node_addNode_self] at member
    simp at member
  · rw [node_addNode_of_ne isNew] at member
    exact ⟨member, isNew⟩

section Modify

variable {change : Node → Node}

theorem node_modify_self (inside : source < nfa.nodes.size) :
    { nfa with nodes := nfa.nodes.modify source change : Nfa }.node source =
      change (nfa.node source) := by
  rw [Nfa.node, Nfa.node, Array.getElem?_modify, if_pos rfl,
    Array.getElem?_eq_getElem inside]
  rfl

theorem node_modify_of_ne (other : node ≠ source) :
    { nfa with nodes := nfa.nodes.modify source change : Nfa }.node node =
      nfa.node node := by
  rw [Nfa.node, Array.getElem?_modify, if_neg (Ne.symm other), Nfa.node]

/-- A field that the change keeps is the same at every node. -/
theorem field_modify
    {α : Type}
    (field : Node → α)
    (keeps : ∀ node, field (change node) = field node) :
    field ({ nfa with nodes := nfa.nodes.modify source change : Nfa }.node
      node) = field (nfa.node node) := by
  by_cases same : node = source
  · by_cases inside : source < nfa.nodes.size
    · rw [same, node_modify_self inside, keeps]
    · have outside : nfa.nodes.size ≤ node := by omega
      have outsideModified : (nfa.nodes.modify source change).size ≤ node := by
        rw [Array.size_modify]
        exact outside
      rw [node_of_size_le outside, node_of_size_le outsideModified]
  · rw [node_modify_of_ne same]

end Modify

@[simp] theorem size_addEdge :
    (nfa.addEdge source edge).nodes.size = nfa.nodes.size :=
  Array.size_modify

theorem node_addEdge_self (inside : source < nfa.nodes.size) :
    (nfa.addEdge source edge).node source =
      { nfa.node source with edges := (nfa.node source).edges ++ [edge] } :=
  node_modify_self inside

theorem node_addEdge_of_ne (other : node ≠ source) :
    (nfa.addEdge source edge).node node = nfa.node node :=
  node_modify_of_ne other

theorem owner_addEdge :
    ((nfa.addEdge source edge).node node).owner = (nfa.node node).owner :=
  field_modify Node.owner fun _ => rfl

theorem accept_addEdge :
    ((nfa.addEdge source edge).node node).accept = (nfa.node node).accept :=
  field_modify Node.accept fun _ => rfl

theorem mem_edges_addEdge
    {old : Edge}
    (inside : source < nfa.nodes.size)
    (member : old ∈ ((nfa.addEdge source edge).node node).edges) :
    old ∈ (nfa.node node).edges ∨ node = source ∧ old = edge := by
  by_cases same : node = source
  · rw [same, node_addEdge_self inside] at member
    rw [same]
    simpa using member
  · rw [node_addEdge_of_ne same] at member
    exact .inl member

@[simp] theorem size_setAccept :
    (nfa.setAccept source accept).nodes.size = nfa.nodes.size :=
  Array.size_modify

theorem node_setAccept_self (inside : source < nfa.nodes.size) :
    (nfa.setAccept source accept).node source =
      { nfa.node source with accept := some accept } :=
  node_modify_self inside

theorem node_setAccept_of_ne (other : node ≠ source) :
    (nfa.setAccept source accept).node node = nfa.node node :=
  node_modify_of_ne other

theorem edges_setAccept :
    ((nfa.setAccept source accept).node node).edges = (nfa.node node).edges :=
  field_modify Node.edges fun _ => rfl

theorem owner_setAccept :
    ((nfa.setAccept source accept).node node).owner = (nfa.node node).owner :=
  field_modify Node.owner fun _ => rfl

/-- Edges that do not read lead from one node to another. -/
def Silent (nfa : Nfa) : Nat → Nat → Prop :=
  Relation.ReflTransGen fun node next =>
    ∃ edge ∈ (nfa.node node).edges, edge.reading? = none ∧ edge.target = next

/-- Add a condition with the given entry. -/
def addCondition (nfa : Nfa) (entry : Nat) : Nfa :=
  { nfa with conditions := nfa.conditions.push entry }

@[simp] theorem node_addCondition {entry : Nat} :
    (nfa.addCondition entry).node node = nfa.node node := rfl

/-! ## Extensions -/

/-- The result differs from the base only on new nodes and on the nodes that
are `changed`, and has further conditions. -/
structure Extends (changed : Nat → Prop) (base result : Nfa) : Prop where
  /-- Nodes are only added. -/
  size_le : base.nodes.size ≤ result.nodes.size
  /-- The other nodes stay as they are. -/
  node_eq : ∀ {node}, node < base.nodes.size → ¬ changed node →
    result.node node = base.node node
  /-- Conditions are only added. -/
  conditions : base.conditions.toList <+: result.conditions.toList
  /-- The treatment of letters stays as it is. -/
  anyCase : result.anyCase = base.anyCase

namespace Extends

variable {changed other : Nat → Prop} {base middle result : Nfa}

theorem refl (changed : Nat → Prop) (nfa : Nfa) : Extends changed nfa nfa where
  size_le := Nat.le_refl _
  node_eq := fun _ _ => rfl
  conditions := List.prefix_rfl
  anyCase := rfl

theorem trans
    (first : Extends changed base middle)
    (second : Extends other middle result)
    (inside : ∀ node, other node → changed node ∨ base.nodes.size ≤ node) :
    Extends changed base result where
  size_le := Nat.le_trans first.size_le second.size_le
  node_eq := by
    intro node isOld unchanged
    have notOther : ¬ other node := by
      intro isOther
      rcases inside node isOther with isChanged | isNew
      · exact unchanged isChanged
      · omega
    rw [second.node_eq (Nat.lt_of_lt_of_le isOld first.size_le) notOther,
      first.node_eq isOld unchanged]
  conditions := first.conditions.trans second.conditions
  anyCase := second.anyCase.trans first.anyCase

theorem addNode
    (growth : Extends changed base result)
    (owner : Option Nat) :
    Extends changed base (result.addNode owner).1 := by
  have step : Extends (fun _ => False) result (result.addNode owner).1 :=
    ⟨by simp, fun isOld _ => node_addNode_of_ne (Nat.ne_of_lt isOld),
      List.prefix_rfl, rfl⟩
  exact growth.trans step fun _ impossible => impossible.elim

theorem addEdge
    (growth : Extends changed base result)
    (inside : changed source ∨ base.nodes.size ≤ source)
    (edge : Edge) :
    Extends changed base (result.addEdge source edge) := by
  have step : Extends (· = source) result (result.addEdge source edge) :=
    ⟨by simp, fun _ unchanged => node_addEdge_of_ne unchanged,
      List.prefix_rfl, rfl⟩
  exact growth.trans step fun _ same => same ▸ inside

theorem setAccept
    (growth : Extends changed base result)
    (inside : changed source ∨ base.nodes.size ≤ source)
    (accept : Accept) :
    Extends changed base (result.setAccept source accept) := by
  have step : Extends (· = source) result (result.setAccept source accept) :=
    ⟨by simp, fun _ unchanged => node_setAccept_of_ne unchanged,
      List.prefix_rfl, rfl⟩
  exact growth.trans step fun _ same => same ▸ inside

theorem addCondition
    (growth : Extends changed base result)
    (entry : Nat) :
    Extends changed base (result.addCondition entry) := by
  have step : Extends (fun _ => False) result (result.addCondition entry) := by
    refine ⟨Nat.le_refl _, fun _ _ => rfl, ?_, rfl⟩
    simp [Nfa.addCondition]
  exact growth.trans step fun _ impossible => impossible.elim

end Extends

/-! ## Tidy automata -/

/-- The nodes from `low` on keep to themselves and to their owners. -/
structure Tidy (low : Nat) (nfa : Nfa) : Prop where
  /-- Edges lead to nodes that exist, from `low` on. -/
  target : ∀ {node edge}, low ≤ node → edge ∈ (nfa.node node).edges →
    low ≤ edge.target ∧ edge.target < nfa.nodes.size
  /-- Edges stay with one owner. -/
  owner : ∀ {node edge}, low ≤ node → edge ∈ (nfa.node node).edges →
    (nfa.node edge.target).owner = (nfa.node node).owner
  /-- The conditions that are tested exist. -/
  bound : ∀ {node condition negated target}, low ≤ node →
    .test condition negated target ∈ (nfa.node node).edges →
      condition < nfa.conditions.size
  /-- A node tests at most one condition. -/
  single : ∀ {node first second negated opposed target next}, low ≤ node →
    .test first negated target ∈ (nfa.node node).edges →
      .test second opposed next ∈ (nfa.node node).edges → first = second
  /-- Accepting nodes belong to what they accept. -/
  accept : ∀ {node accept}, low ≤ node →
    (nfa.node node).accept = some accept →
      (nfa.node node).owner = accept.owner

namespace Tidy

variable {low : Nat}

theorem of_size_le (above : nfa.nodes.size ≤ low) : nfa.Tidy low := by
  have empty {node : Nat} (fromLow : low ≤ node) :
      nfa.node node = ⟨[], none, none⟩ :=
    node_of_size_le (Nat.le_trans above fromLow)
  constructor
  · intro node edge fromLow member
    simp [empty fromLow] at member
  · intro node edge fromLow member
    simp [empty fromLow] at member
  · intro node condition negated target fromLow member
    simp [empty fromLow] at member
  · intro node first second negated opposed target next fromLow member
    simp [empty fromLow] at member
  · intro node accept fromLow accepts
    simp [empty fromLow] at accepts

theorem addNode
    (tidy : nfa.Tidy low)
    (owner : Option Nat) :
    (nfa.addNode owner).1.Tidy low := by
  constructor
  · intro node edge fromLow member
    have bounds := tidy.target fromLow (mem_edges_addNode member).1
    rw [size_addNode]
    omega
  · intro node edge fromLow member
    obtain ⟨isOld, notNew⟩ := mem_edges_addNode member
    have bounds := tidy.target fromLow isOld
    rw [node_addNode_of_ne notNew, node_addNode_of_ne (Nat.ne_of_lt bounds.2)]
    exact tidy.owner fromLow isOld
  · intro node condition negated target fromLow member
    exact tidy.bound fromLow (mem_edges_addNode member).1
  · intro node first second negated opposed target next fromLow member again
    exact tidy.single fromLow (mem_edges_addNode member).1
      (mem_edges_addNode again).1
  · intro node accept fromLow accepts
    by_cases isNew : node = nfa.nodes.size
    · rw [isNew, node_addNode_self] at accepts
      simp at accepts
    · rw [node_addNode_of_ne isNew] at accepts ⊢
      exact tidy.accept fromLow accepts

theorem addEdge
    (tidy : nfa.Tidy low)
    (inside : source < nfa.nodes.size)
    (bounds : low ≤ edge.target ∧ edge.target < nfa.nodes.size)
    (sameOwner : (nfa.node edge.target).owner = (nfa.node source).owner)
    (tests : ∀ condition negated target, edge = .test condition negated target →
      condition < nfa.conditions.size ∧ (nfa.node source).edges = []) :
    (nfa.addEdge source edge).Tidy low := by
  constructor
  · intro node old fromLow member
    rw [size_addEdge]
    rcases mem_edges_addEdge inside member with isOld | ⟨rfl, rfl⟩
    · exact tidy.target fromLow isOld
    · exact bounds
  · intro node old fromLow member
    rw [owner_addEdge, owner_addEdge]
    rcases mem_edges_addEdge inside member with isOld | ⟨rfl, rfl⟩
    · exact tidy.owner fromLow isOld
    · exact sameOwner
  · intro node condition negated target fromLow member
    rcases mem_edges_addEdge inside member with isOld | ⟨rfl, isNew⟩
    · exact tidy.bound fromLow isOld
    · exact (tests condition negated target isNew.symm).1
  · intro node first second negated opposed target next fromLow member again
    rcases mem_edges_addEdge inside member with isOld | ⟨rfl, isNew⟩
    · rcases mem_edges_addEdge inside again with againOld | ⟨rfl, againNew⟩
      · exact tidy.single fromLow isOld againOld
      · have noEdges := (tests second opposed next againNew.symm).2
        simp [noEdges] at isOld
    · rcases mem_edges_addEdge inside again with againOld | ⟨-, againNew⟩
      · have noEdges := (tests first negated target isNew.symm).2
        simp [noEdges] at againOld
      · rw [← againNew] at isNew
        injection isNew
  · intro node accept fromLow accepts
    rw [accept_addEdge] at accepts
    rw [owner_addEdge]
    exact tidy.accept fromLow accepts

/-- Adding an edge to a node that need not be tidy. -/
theorem addEdge_below
    (tidy : nfa.Tidy low)
    (below : source < low) :
    (nfa.addEdge source edge).Tidy low := by
  have edges {node : Nat} (fromLow : low ≤ node) :
      ((nfa.addEdge source edge).node node).edges = (nfa.node node).edges := by
    rw [node_addEdge_of_ne (by omega)]
  constructor
  · intro node old fromLow member
    rw [edges fromLow] at member
    rw [size_addEdge]
    exact tidy.target fromLow member
  · intro node old fromLow member
    rw [edges fromLow] at member
    rw [owner_addEdge, owner_addEdge]
    exact tidy.owner fromLow member
  · intro node condition negated target fromLow member
    rw [edges fromLow] at member
    exact tidy.bound fromLow member
  · intro node first second negated opposed target next fromLow member again
    rw [edges fromLow] at member again
    exact tidy.single fromLow member again
  · intro node accept fromLow accepts
    rw [accept_addEdge] at accepts
    rw [owner_addEdge]
    exact tidy.accept fromLow accepts

/-- Adding a free edge between nodes of one owner. -/
theorem addFree
    {target : Nat}
    (tidy : nfa.Tidy low)
    (inside : source < nfa.nodes.size)
    (bounds : low ≤ target ∧ target < nfa.nodes.size)
    (sameOwner : (nfa.node target).owner = (nfa.node source).owner) :
    (nfa.addEdge source (.free target)).Tidy low := by
  refine tidy.addEdge inside bounds sameOwner ?_
  intro condition negated other impossible
  cases impossible

/-- Adding an edge that reads between nodes of one owner. -/
theorem addUnits
    {target : Nat}
    {characters : CharSet}
    (tidy : nfa.Tidy low)
    (inside : source < nfa.nodes.size)
    (bounds : low ≤ target ∧ target < nfa.nodes.size)
    (sameOwner : (nfa.node target).owner = (nfa.node source).owner) :
    (nfa.addEdge source (.units characters target)).Tidy low := by
  refine tidy.addEdge inside bounds sameOwner ?_
  intro condition negated other impossible
  cases impossible

theorem setAccept
    (tidy : nfa.Tidy low)
    (inside : source < nfa.nodes.size)
    (isOwner : (nfa.node source).owner = accept.owner) :
    (nfa.setAccept source accept).Tidy low := by
  constructor
  · intro node edge fromLow member
    rw [edges_setAccept] at member
    rw [size_setAccept]
    exact tidy.target fromLow member
  · intro node edge fromLow member
    rw [edges_setAccept] at member
    rw [owner_setAccept, owner_setAccept]
    exact tidy.owner fromLow member
  · intro node condition negated target fromLow member
    rw [edges_setAccept] at member
    exact tidy.bound fromLow member
  · intro node first second negated opposed target next fromLow member again
    rw [edges_setAccept] at member again
    exact tidy.single fromLow member again
  · intro node other fromLow accepts
    rw [owner_setAccept]
    by_cases same : node = source
    · rw [same, node_setAccept_self inside] at accepts
      rw [same, isOwner, Option.some.inj accepts]
    · rw [node_setAccept_of_ne same] at accepts
      exact tidy.accept fromLow accepts

theorem addCondition
    (tidy : nfa.Tidy low)
    (entry : Nat) :
    (nfa.addCondition entry).Tidy low where
  target := tidy.target
  owner := tidy.owner
  bound := by
    intro node condition negated target fromLow member
    have bounded := tidy.bound fromLow member
    simp only [Nfa.addCondition, Array.size_push]
    omega
  single := tidy.single
  accept := tidy.accept

end Tidy

end Nfa
end Lexical
end ParserGenerator
