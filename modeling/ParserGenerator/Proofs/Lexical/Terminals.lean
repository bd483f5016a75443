import ParserGenerator.Proofs.Lexical.Compiling

/-!
# The automaton of some terminals

The nondeterministic automaton of some patterns stands for them: from its
start it reaches what accepts a terminal over exactly the texts that the
pattern of the terminal matches, and each condition holds where its fragment
accepts.
-/

namespace ParserGenerator
namespace Lexical
namespace Nfa

/-- Make a fragment that of a terminal. -/
def closeTerminal (start index : Nat) (outcome : Nfa × Fragment) : Nfa :=
  (outcome.1.setAccept outcome.2.exit (.terminal index)).addEdge start
    (.free outcome.2.entry)

section Close

variable {base result final : Nfa} {start index : Nat}
  {outcome : Nfa × Fragment}

@[simp] theorem size_closeTerminal :
    (closeTerminal start index outcome).nodes.size =
      outcome.1.nodes.size := by
  rw [closeTerminal, size_addEdge, size_setAccept]

theorem extends_closeTerminal
    (builds : Builds (some index) base outcome.1 outcome.2) :
    Extends (· = start) base (closeTerminal start index outcome) := by
  have grown : Extends (· = start) base outcome.1 :=
    (Extends.refl _ base).trans builds.growth fun _ => False.elim
  exact (grown.setAccept (.inr builds.exitFresh) _).addEdge (.inl rfl) _

theorem node_closeTerminal_start
    (builds : Builds (some index) base outcome.1 outcome.2)
    (inside : start < base.nodes.size) :
    (closeTerminal start index outcome).node start =
      { base.node start with
        edges := (base.node start).edges ++ [.free outcome.2.entry] } := by
  have exitFresh := builds.exitFresh
  have grown := builds.growth.size_le
  rw [closeTerminal, node_addEdge_self (by simp; omega),
    node_setAccept_of_ne (by omega), builds.growth.node_eq inside id]

theorem node_closeTerminal_exit
    (builds : Builds (some index) base outcome.1 outcome.2)
    (inside : start < base.nodes.size) :
    (closeTerminal start index outcome).node outcome.2.exit =
      ⟨[], some (.terminal index), some index⟩ := by
  have exitFresh := builds.exitFresh
  rw [closeTerminal, node_addEdge_of_ne (by omega),
    node_setAccept_self builds.inside, builds.record]

theorem tidy_closeTerminal
    {low : Nat}
    (builds : Builds (some index) base outcome.1 outcome.2)
    (fromLow : low ≤ base.nodes.size)
    (below : start < low)
    (tidy : base.Tidy low) :
    (closeTerminal start index outcome).Tidy low := by
  have tidyInner := builds.tidy fromLow (fun _ => False.elim) tidy
  refine (tidyInner.setAccept builds.inside ?_).addEdge_below below
  rw [builds.record]
  rfl

theorem later_closeTerminal
    (builds : Builds (some index) base outcome.1 outcome.2)
    (inside : start < base.nodes.size) :
    Later base outcome.2.entry outcome.2.exit outcome.1
      (closeTerminal start index outcome) := by
  have entryFresh := builds.entryFresh
  refine ((Extends.refl _ _).setAccept (.inl (.inr rfl)) _).addEdge
    (.inl (.inl ⟨inside, ?_⟩)) _
  omega

end Close

variable [CharacterData] {base result final : Nfa} {anyCase : Bool}
  {start index : Nat}

/-- The fragment behind an edge recognizes a pattern and accepts a terminal. -/
def Offers (nfa : Nfa) (holds : Nat → List CodeUnit → Prop) (anyCase : Bool)
    (edge : Edge) (numbered : Pattern × Nat) : Prop :=
  ∃ fragment : Fragment, edge = .free fragment.entry ∧
    nfa.Recognizes holds (numbered.1.Matches anyCase) fragment.entry
      fragment.exit ∧
    nfa.node fragment.exit =
      ⟨[], some (.terminal numbered.2), some numbered.2⟩ ∧
    (nfa.node fragment.entry).owner = some numbered.2 ∧
    0 < fragment.entry ∧ fragment.entry < nfa.nodes.size

/-- The patterns of some terminals were compiled, to be reached from one
node. -/
structure Serves (anyCase : Bool) (start index : Nat) (patterns : List Pattern)
    (edges : List Edge) (base result : Nfa) : Prop where
  /-- The fragments stand behind the start. -/
  gathers : Gathers anyCase start patterns edges base result
  /-- Each fragment accepts its terminal. -/
  branches : ∀ {final conditions}, Extends (· < base.nodes.size) result final →
    Pattern.allLookaheads patterns <+: conditions.drop base.conditions.size →
      List.Forall₂ (final.Offers (Holds anyCase conditions) anyCase) edges
        (patterns.zipIdx index)
  /-- The automaton stays tidy behind the start. -/
  tidy : ∀ {low}, low ≤ base.nodes.size → start < low →
    base.Tidy low → result.Tidy low

omit [CharacterData] in
theorem attaches_closeTerminal
    {outcome : Nfa × Fragment}
    (builds : Builds (some index) base outcome.1 outcome.2)
    (inside : start < base.nodes.size) :
    Attaches start base outcome (closeTerminal start index outcome) :=
  ⟨extends_closeTerminal builds, size_closeTerminal, rfl,
    node_closeTerminal_start builds inside, later_closeTerminal builds inside⟩

theorem Serves.cons
    {pattern : Pattern}
    {rest : List Pattern}
    {edges : List Edge}
    {outcome : Nfa × Fragment}
    (inside : start < base.nodes.size)
    (first : Compiles anyCase (some index) (pattern.Matches anyCase)
      pattern.lookaheads base outcome)
    (others : Serves anyCase start (index + 1) rest edges
      (closeTerminal start index outcome) result) :
    Serves anyCase start index (pattern :: rest)
      (.free outcome.2.entry :: edges) base result := by
  have attaches := attaches_closeTerminal first.builds inside
  have growth := others.gathers.growth
  have entryFresh := first.builds.entryFresh
  have entryInside := first.builds.entryInside
  refine ⟨.cons inside first attaches others.gathers, ?_, ?_⟩
  · intro final conditions later listed
    obtain ⟨firstListed, othersListed⟩ := attaches.listed first listed
    have recognizes := first.means.recognizes
      (attaches.later_final first.builds inside growth later) firstListed
    rw [List.zipIdx_cons]
    refine .cons ⟨outcome.2, rfl, recognizes, ?_, ?_, ?_, ?_⟩
      (others.branches (attaches.extends_final later) othersListed)
    · rw [attaches.node_final inside growth later first.builds.exitFresh
          first.builds.inside,
        node_closeTerminal_exit first.builds inside]
    · rw [attaches.node_final inside growth later entryFresh entryInside,
        closeTerminal, owner_addEdge, owner_setAccept, first.builds.entryOwner]
    · omega
    · have reached := growth.size_le
      rw [size_closeTerminal] at reached
      exact Nat.lt_of_lt_of_le entryInside
        (Nat.le_trans reached later.size_le)
  · intro low fromLow below tidy
    exact others.tidy (Nat.le_trans fromLow attaches.growth.size_le) below
      (tidy_closeTerminal first.builds fromLow below tidy)

theorem serves_addTerminals
    {patterns : List Pattern}
    (isCase : base.anyCase = anyCase)
    (inside : start < base.nodes.size)
    (compilable : ∀ pattern ∈ patterns, Compilable anyCase pattern) :
    ∃ edges, Serves anyCase start index patterns edges base
      (base.addTerminals start index patterns) := by
  induction patterns generalizing base index with
  | nil => exact ⟨[], .nil _ base, fun _ _ => .nil, fun _ _ => id⟩
  | cons pattern rest inductionHypothesis =>
      obtain ⟨firstCompilable, restCompilable⟩ :=
        List.forall_mem_cons.mp compilable
      have first : Compiles anyCase (some index) _ _ base
          (base.compile (some index) pattern) := firstCompilable isCase
      have growth : Extends (· = start) base (closeTerminal start index
          (base.compile (some index) pattern)) :=
        extends_closeTerminal first.builds
      obtain ⟨edges, others⟩ := @inductionHypothesis
        (closeTerminal start index (base.compile (some index) pattern))
        (index + 1) (growth.anyCase.trans isCase)
        (Nat.lt_of_lt_of_le inside growth.size_le) restCompilable
      exact ⟨_, .cons inside first others⟩

/-- The automaton stands for some patterns. -/
structure StandsFor (anyCase : Bool) (patterns : List Pattern)
    (holds : Nat → List CodeUnit → Prop) (nfa : Nfa) : Prop where
  /-- All nodes but the start keep to their owners. -/
  tidy : nfa.Tidy 1
  /-- There is a start. -/
  nonempty : 0 < nfa.nodes.size
  /-- The start accepts nothing. -/
  start : (nfa.node 0).accept = none
  /-- The start leads to the terminals, without a test. -/
  startEdges : ∀ edge ∈ (nfa.node 0).edges, ∃ target index,
    edge = .free target ∧ 0 < target ∧ target < nfa.nodes.size ∧
      (nfa.node target).owner = some index
  /-- A terminal is reached over the texts that its pattern matches. -/
  accepts : ∀ index before after,
    (∃ node, nfa.Reaches holds (0, before) (node, after) ∧
        (nfa.node node).accept = some (.terminal index)) ↔
      ∃ pattern, patterns[index]? = some pattern ∧
        pattern.Matches anyCase before after
  /-- The conditions hold where their fragments accept. -/
  settled : ∀ number < nfa.conditions.size, nfa.Settled holds 1 number

theorem standsFor_ofPatterns
    (apart : CharacterData.SurrogatesApart)
    (anyCase : Bool)
    (patterns : List Pattern)
    (normal : ∀ pattern ∈ patterns, pattern.Normal) :
    StandsFor anyCase patterns
      (Holds anyCase (Pattern.allLookaheads patterns))
      (ofPatterns anyCase patterns) := by
  obtain ⟨edges, serves⟩ : ∃ edges, Serves anyCase 0 0 patterns edges
      ((empty anyCase).addNode none).1 (ofPatterns anyCase patterns) :=
    serves_addTerminals rfl (by simp) fun pattern member =>
      compilable_of_normal apart pattern (normal pattern member)
  have listed : Pattern.allLookaheads patterns <+:
      (Pattern.allLookaheads patterns).drop
        ((empty anyCase).addNode none).1.conditions.size := List.prefix_rfl
  have isBase : ((empty anyCase).addNode none).1.node 0 = ⟨[], none, none⟩ :=
    node_addNode_self
  have baseSize : ((empty anyCase).addNode none).1.nodes.size = 1 := by
    rw [size_addNode]
    rfl
  have startNode := serves.gathers.node_eq
  rw [isBase] at startNode
  have offers := serves.branches (.refl _ _) listed
  have grown := serves.gathers.growth.size_le
  rw [baseSize] at grown
  refine ⟨serves.tidy (Nat.le_of_eq baseSize.symm) Nat.one_pos
    (.of_size_le (Nat.le_of_eq baseSize)), grown, by rw [startNode], ?_, ?_, ?_⟩
  · intro edge member
    rw [startNode] at member
    obtain ⟨numbered, -, fragment, isEdge, -, -, owner, positive, inside⟩ :=
      exists_right_of_mem offers member
    exact ⟨fragment.entry, numbered.2, isEdge, positive, inside, owner⟩
  · intro index before after
    have inner : (ofPatterns anyCase patterns).Inner 0 edges :=
      inner_of_node startNode
    constructor
    · rintro ⟨node, ⟨length, path⟩, accepts⟩
      rcases inner.path_cases path with
        noAccept | ⟨edge, member, next, short, -, leads, onward⟩
      · rw [accepts] at noAccept
        cases noAccept
      obtain ⟨⟨pattern, number⟩, isNumbered, fragment, rfl, recognizes,
        exitNode, -⟩ := exists_right_of_mem offers member
      obtain rfl : next = (fragment.entry, before) := leads
      rcases recognizes.sound onward with
        noAccept | ⟨middle, shorter, -, isMatch, outward⟩
      · rw [accepts] at noAccept
        cases noAccept
      -- No edge leaves the exit, so that the path ends there.
      cases outward with
      | here =>
          rw [exitNode] at accepts
          obtain rfl : number = index := by simpa using accepts
          rw [List.mem_zipIdx_iff_getElem?] at isNumbered
          exact ⟨pattern, isNumbered, isMatch⟩
      | step step _ =>
          obtain ⟨edge, isEdge, -⟩ := step
          rw [exitNode] at isEdge
          cases isEdge
    · rintro ⟨pattern, isPattern, isMatch⟩
      have isNumbered : (pattern, index) ∈ patterns.zipIdx 0 := by
        rwa [List.mem_zipIdx_iff_getElem?]
      obtain ⟨edge, member, fragment, rfl, recognizes, exitNode, -⟩ :=
        exists_left_of_mem offers isNumbered
      refine ⟨fragment.exit, ?_, by rw [exitNode]⟩
      have step : (ofPatterns anyCase patterns).Step
          (Holds anyCase (Pattern.allLookaheads patterns)) (0, before)
          (fragment.entry, before) :=
        inner.step_iff.mpr ⟨_, member, rfl⟩
      exact (Reaches.single step).trans (recognizes.complete isMatch)
  · intro number below
    exact (serves.gathers.settled (.refl _ _) listed (Nat.zero_le _)
      below).mono (Nat.le_of_eq baseSize.symm)

end Nfa
end Lexical
end ParserGenerator
