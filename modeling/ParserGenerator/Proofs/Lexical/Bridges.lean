import ParserGenerator.Proofs.Lexical.Meaning

/-!
# Choices and repetitions

The fragments of a choice stand side by side between two fresh nodes. So does
the fragment of a repetition, with an edge back if it may be repeated and an
edge past it if it may be left out.
-/

namespace ParserGenerator
namespace Lexical
namespace Nfa

variable [CharacterData] {owner : Option Nat} {base result final : Nfa}
  {anyCase : Bool}

/-! ## Fragments between two nodes -/

/-- Put a fragment between two nodes. -/
def bridge (outer : Fragment) (outcome : Nfa × Fragment) : Nfa :=
  (outcome.1.addEdge outer.entry (.free outcome.2.entry)).addEdge
    outcome.2.exit (.free outer.exit)

section Bridge

variable {outer : Fragment} {outcome : Nfa × Fragment}

omit [CharacterData] in
@[simp] theorem size_bridge :
    (bridge outer outcome).nodes.size = outcome.1.nodes.size := by
  rw [bridge, size_addEdge, size_addEdge]

omit [CharacterData] in
theorem extends_bridge
    (builds : Builds owner base outcome.1 outcome.2) :
    Extends (· = outer.entry) base (bridge outer outcome) := by
  have grown : Extends (· = outer.entry) base outcome.1 :=
    (Extends.refl _ base).trans builds.growth fun _ => False.elim
  exact (grown.addEdge (.inl rfl) _).addEdge (.inr builds.exitFresh) _

omit [CharacterData] in
theorem node_bridge_entry
    (builds : Builds owner base outcome.1 outcome.2)
    (inside : outer.entry < base.nodes.size) :
    (bridge outer outcome).node outer.entry =
      { base.node outer.entry with
        edges := (base.node outer.entry).edges ++
          [.free outcome.2.entry] } := by
  have exitFresh := builds.exitFresh
  have grown := builds.growth.size_le
  rw [bridge, node_addEdge_of_ne (by omega), node_addEdge_self (by omega),
    builds.growth.node_eq inside id]

omit [CharacterData] in
theorem node_bridge_exit
    (builds : Builds owner base outcome.1 outcome.2)
    (inside : outer.entry < base.nodes.size) :
    (bridge outer outcome).node outcome.2.exit =
      ⟨[.free outer.exit], none, owner⟩ := by
  have exitFresh := builds.exitFresh
  rw [bridge, node_addEdge_self (by rw [size_addEdge]; exact builds.inside),
    node_addEdge_of_ne (by omega), builds.record]
  rfl

omit [CharacterData] in
theorem tidy_bridge
    {low : Nat}
    (builds : Builds owner base outcome.1 outcome.2)
    (fromLow : low ≤ base.nodes.size)
    (entryInside : outer.entry < base.nodes.size)
    (exitFromLow : low ≤ outer.exit)
    (exitInside : outer.exit < base.nodes.size)
    (entryOwner : (base.node outer.entry).owner = owner)
    (exitOwner : (base.node outer.exit).owner = owner)
    (tidy : base.Tidy low) :
    (bridge outer outcome).Tidy low := by
  have grown := builds.growth.size_le
  have entryFresh := builds.entryFresh
  have tidyInner := builds.tidy fromLow (fun _ => False.elim) tidy
  refine (tidyInner.addFree ?_ ⟨by omega, builds.entryInside⟩ ?_).addFree ?_
    ⟨exitFromLow, ?_⟩ ?_
  · omega
  · rw [builds.entryOwner, builds.growth.node_eq entryInside id, entryOwner]
  · rw [size_addEdge]
    exact builds.inside
  · rw [size_addEdge]
    omega
  · rw [owner_addEdge, owner_addEdge, builds.record,
      builds.growth.node_eq exitInside id, exitOwner]

omit [CharacterData] in
/-- What is built around a fragment comes later. -/
theorem later_bridge
    (builds : Builds owner base outcome.1 outcome.2)
    (inside : outer.entry < base.nodes.size) :
    Later base outcome.2.entry outcome.2.exit outcome.1
      (bridge outer outcome) := by
  have entryFresh := builds.entryFresh
  refine ((Extends.refl _ _).addEdge (.inl (.inl ⟨inside, ?_⟩)) _).addEdge
    (.inl (.inr rfl)) _
  omega

end Bridge

/-! ## Fragments side by side -/

/-- A fragment was attached to a node and nothing older changed. -/
structure Attaches (source : Nat) (base : Nfa) (outcome : Nfa × Fragment)
    (closed : Nfa) : Prop where
  /-- Only the source changes. -/
  growth : Extends (· = source) base closed
  /-- No nodes are added. -/
  size_eq : closed.nodes.size = outcome.1.nodes.size
  /-- No conditions are added. -/
  conditions_eq : closed.conditions.size = outcome.1.conditions.size
  /-- The source leads to the fragment. -/
  node_eq : closed.node source =
    { base.node source with
      edges := (base.node source).edges ++ [.free outcome.2.entry] }
  /-- The fragment is left alone. -/
  later : Later base outcome.2.entry outcome.2.exit outcome.1 closed

/-- Some patterns were compiled side by side behind a node. -/
structure Gathers (anyCase : Bool) (source : Nat) (items : List Pattern)
    (edges : List Edge) (base result : Nfa) : Prop where
  /-- Only the source changes. -/
  growth : Extends (· = source) base result
  /-- The number of conditions added. -/
  count : result.conditions.size =
    base.conditions.size + (Pattern.allLookaheads items).length
  /-- The edges that lead to the fragments. -/
  node_eq : result.node source =
    { base.node source with edges := (base.node source).edges ++ edges }
  /-- The conditions added. -/
  settled : ∀ {final conditions number},
    Extends (· < base.nodes.size) result final →
      Pattern.allLookaheads items <+: conditions.drop base.conditions.size →
        base.conditions.size ≤ number → number < result.conditions.size →
          final.Settled (Holds anyCase conditions) base.nodes.size number

section Gathers

variable {source : Nat} {item : Pattern} {rest : List Pattern}
  {edges : List Edge} {outcome : Nfa × Fragment} {closed : Nfa}

theorem Gathers.nil (source : Nat) (base : Nfa) :
    Gathers anyCase source [] [] base base := by
  refine ⟨.refl _ base, rfl, by simp, ?_⟩
  intro final conditions number _ _ above below
  exact absurd below (Nat.not_lt.mpr above)

omit [CharacterData] in
/-- What is built later leaves an attached fragment alone. -/
theorem Attaches.later_final
    (attaches : Attaches source base outcome closed)
    (builds : Builds owner base outcome.1 outcome.2)
    (inside : source < base.nodes.size)
    (growth : Extends (· = source) closed result)
    (later : Extends (· < base.nodes.size) result final) :
    Later base outcome.2.entry outcome.2.exit outcome.1 final := by
  have entryFresh := builds.entryFresh
  refine (attaches.later.trans growth fun node same => ?_).trans later
    fun node isOld => ?_
  · exact .inl (.inl ⟨by omega, by omega⟩)
  · exact .inl (.inl ⟨isOld, by omega⟩)

omit [CharacterData] in
theorem Attaches.extends_final
    (attaches : Attaches source base outcome closed)
    (later : Extends (· < base.nodes.size) result final) :
    Extends (· < closed.nodes.size) result final := by
  have grown := attaches.growth.size_le
  exact (Extends.refl _ result).trans later fun node isOld =>
    .inl (Nat.lt_of_lt_of_le isOld grown)

omit [CharacterData] in
/-- An attached fragment looks in the end as it did when it was attached. -/
theorem Attaches.node_final
    {node : Nat}
    (attaches : Attaches source base outcome closed)
    (inside : source < base.nodes.size)
    (growth : Extends (· = source) closed result)
    (later : Extends (· < base.nodes.size) result final)
    (isNew : base.nodes.size ≤ node)
    (isInside : node < outcome.1.nodes.size) :
    final.node node = closed.node node := by
  have reached := growth.size_le
  rw [attaches.size_eq] at reached
  rw [later.node_eq (by omega) (by omega),
    growth.node_eq (by rw [attaches.size_eq]; omega) (by omega)]

/-- The conditions of some patterns are those of the first one and then those
of the others. -/
theorem Attaches.listed
    {conditions : List Pattern}
    (attaches : Attaches source base outcome closed)
    (first : Compiles anyCase owner (item.Matches anyCase) item.lookaheads base
      outcome)
    (listed : Pattern.allLookaheads (item :: rest) <+:
      conditions.drop base.conditions.size) :
    item.lookaheads <+: conditions.drop base.conditions.size ∧
      Pattern.allLookaheads rest <+:
        conditions.drop closed.conditions.size := by
  rw [attaches.conditions_eq, first.means.count]
  rw [Pattern.allLookaheads] at listed
  exact prefix_drop_append listed

theorem Gathers.cons
    (inside : source < base.nodes.size)
    (first : Compiles anyCase owner (item.Matches anyCase) item.lookaheads base
      outcome)
    (attaches : Attaches source base outcome closed)
    (others : Gathers anyCase source rest edges closed result) :
    Gathers anyCase source (item :: rest) (.free outcome.2.entry :: edges) base
      result := by
  refine ⟨attaches.growth.trans others.growth fun _ same => .inl same, ?_, ?_,
    ?_⟩
  · rw [others.count, attaches.conditions_eq, first.means.count,
      Pattern.allLookaheads, List.length_append]
    omega
  · rw [others.node_eq, attaches.node_eq]
    simp
  · intro final conditions number later listed above below
    obtain ⟨firstListed, othersListed⟩ := attaches.listed first listed
    by_cases early : number < outcome.1.conditions.size
    · exact first.means.settled (attaches.later_final first.builds inside
        others.growth later) firstListed above early
    · rw [← attaches.conditions_eq] at early
      exact (others.settled (attaches.extends_final later) othersListed
        (Nat.not_lt.mp early) below).mono attaches.growth.size_le

end Gathers

/-! ## Choices -/

/-- Some patterns were compiled side by side between two nodes. -/
structure Joins (anyCase : Bool) (outer : Fragment) (items : List Pattern)
    (edges : List Edge) (base result : Nfa) : Prop where
  /-- The fragments stand behind the entry. -/
  gathers : Gathers anyCase outer.entry items edges base result
  /-- Each fragment leads on to the exit. -/
  branches : ∀ {final conditions}, Extends (· < base.nodes.size) result final →
    Pattern.allLookaheads items <+: conditions.drop base.conditions.size →
      List.Forall₂ (fun edge language => ∃ entry, edge = .free entry ∧
        final.Recognizes (Holds anyCase conditions) language entry outer.exit)
        edges (items.map (Pattern.Matches anyCase))
  /-- The automaton stays tidy. -/
  tidy : ∀ {low}, low ≤ base.nodes.size → low ≤ outer.exit →
    base.Tidy low → result.Tidy low

omit [CharacterData] in
theorem attaches_bridge
    {outer : Fragment}
    {outcome : Nfa × Fragment}
    (builds : Builds owner base outcome.1 outcome.2)
    (inside : outer.entry < base.nodes.size) :
    Attaches outer.entry base outcome (bridge outer outcome) :=
  ⟨extends_bridge builds, size_bridge, rfl, node_bridge_entry builds inside,
    later_bridge builds inside⟩

theorem Joins.cons
    {outer : Fragment}
    {item : Pattern}
    {rest : List Pattern}
    {edges : List Edge}
    {outcome : Nfa × Fragment}
    (entryInside : outer.entry < base.nodes.size)
    (exitInside : outer.exit < base.nodes.size)
    (entryOwner : (base.node outer.entry).owner = owner)
    (exitOwner : (base.node outer.exit).owner = owner)
    (first : Compiles anyCase owner (item.Matches anyCase) item.lookaheads base
      outcome)
    (others : Joins anyCase outer rest edges (bridge outer outcome) result) :
    Joins anyCase outer (item :: rest) (.free outcome.2.entry :: edges) base
      result := by
  have attaches := attaches_bridge first.builds entryInside
  refine ⟨.cons entryInside first attaches others.gathers, ?_, ?_⟩
  · intro final conditions later listed
    obtain ⟨firstListed, othersListed⟩ := attaches.listed first listed
    refine .cons ⟨_, rfl, ?_⟩
      (others.branches (attaches.extends_final later) othersListed)
    refine (first.means.recognizes (attaches.later_final first.builds
      entryInside others.gathers.growth later) firstListed).leave ?_
    have exitNow : final.node outcome.2.exit =
        ⟨[.free outer.exit], none, owner⟩ := by
      rw [attaches.node_final entryInside others.gathers.growth later
          first.builds.exitFresh first.builds.inside,
        node_bridge_exit first.builds entryInside]
    exact inner_of_node exitNow
  · intro low fromLow exitFromLow tidy
    refine others.tidy (Nat.le_trans fromLow attaches.growth.size_le)
      exitFromLow ?_
    exact tidy_bridge first.builds fromLow entryInside exitFromLow exitInside
      entryOwner exitOwner tidy

theorem joins_compileBranches
    {outer : Fragment}
    {items : List Pattern}
    (isCase : base.anyCase = anyCase)
    (entryInside : outer.entry < base.nodes.size)
    (exitInside : outer.exit < base.nodes.size)
    (entryOwner : (base.node outer.entry).owner = owner)
    (exitOwner : (base.node outer.exit).owner = owner)
    (compilable : ∀ item ∈ items, Compilable anyCase item) :
    ∃ edges, Joins anyCase outer items edges base
      (base.compileBranches owner outer items) := by
  induction items generalizing base with
  | nil =>
      rw [compileBranches]
      exact ⟨[], .nil _ base, fun _ _ => .nil, fun _ _ => id⟩
  | cons item rest inductionHypothesis =>
      obtain ⟨itemCompilable, restCompilable⟩ :=
        List.forall_mem_cons.mp compilable
      have first : Compiles anyCase owner _ _ base (base.compile owner item) :=
        itemCompilable isCase
      have growth : Extends (· = outer.entry) base
          (bridge outer (base.compile owner item)) :=
        extends_bridge first.builds
      have grown := growth.size_le
      rw [compileBranches]
      obtain ⟨edges, others⟩ : ∃ edges, Joins anyCase outer rest edges
          (bridge outer (base.compile owner item))
          ((bridge outer (base.compile owner item)).compileBranches owner outer
            rest) := by
        refine inductionHypothesis ?_ ?_ ?_ ?_ ?_ restCompilable
        · exact growth.anyCase.trans isCase
        · omega
        · omega
        · rw [node_bridge_entry first.builds entryInside, entryOwner]
        · by_cases same : outer.exit = outer.entry
          · rw [same, node_bridge_entry first.builds entryInside, entryOwner]
          · rw [growth.node_eq exitInside same, exitOwner]
      exact ⟨_, .cons entryInside exitInside entryOwner exitOwner first others⟩

omit [CharacterData] in
/-- What is built later leaves alone what was built between two fresh nodes. -/
theorem Later.extends
    (later : Later base base.nodes.size (base.nodes.size + 1) result final) :
    Extends (· < (base.addOuter owner).nodes.size) result final := by
  refine (Extends.refl _ result).trans later fun node changed => .inl ?_
  rw [size_addOuter]
  omega

/-- What is built between two fresh nodes is a fragment. -/
theorem compiles_addOuter
    {language : Language}
    {lookaheads : List Pattern}
    (growth : Extends (· = base.nodes.size) (base.addOuter owner) result)
    (entryOwner : (result.node base.nodes.size).owner = owner)
    (tidy : ∀ {low}, low ≤ base.nodes.size →
      (base.addOuter owner).Tidy low → result.Tidy low)
    (means : Means anyCase language lookaheads base.nodes.size
      (base.nodes.size + 1) base result) :
    Compiles anyCase owner language lookaheads base
      (result, ⟨base.nodes.size, base.nodes.size + 1⟩) := by
  have grown := growth.size_le
  rw [size_addOuter] at grown
  refine ⟨⟨⟨?_, ?_, .inr (Nat.le_succ _), ?_, ?_⟩, Nat.le_refl _, ?_,
    entryOwner⟩, means⟩
  · exact (extends_addOuter _).trans growth
      fun _ same => .inr (Nat.le_of_eq same.symm)
  · exact grown
  · rw [growth.node_eq (by simp) (by simp), node_addOuter_exit]
  · intro low fromLow _ tidyBase
    exact tidy fromLow (tidyBase.addOuter owner)
  · exact Nat.lt_of_succ_lt grown

theorem compile_alternate (items : List Pattern) :
    base.compile owner (.alternate items) =
      ((base.addOuter owner).compileBranches owner
        ⟨base.nodes.size, base.nodes.size + 1⟩ items,
        ⟨base.nodes.size, base.nodes.size + 1⟩) := by
  have second : base.nodes.size + 1 = (base.addNode owner).1.nodes.size :=
    size_addNode.symm
  rw [compile, second]
  rfl

theorem compilable_alternate
    {items : List Pattern}
    (compilable : ∀ item ∈ items, Compilable anyCase item) :
    Compilable anyCase (.alternate items) := by
  intro owner base isCase
  obtain ⟨edges, joins⟩ : ∃ edges, Joins anyCase
      ⟨base.nodes.size, base.nodes.size + 1⟩ items edges (base.addOuter owner)
      ((base.addOuter owner).compileBranches owner
        ⟨base.nodes.size, base.nodes.size + 1⟩ items) := by
    refine joins_compileBranches ?_ (by simp) (by simp) ?_ ?_ compilable
    · exact isCase
    · rw [node_addOuter_entry]
    · rw [node_addOuter_exit]
  obtain ⟨growth, count, entryNode, settled⟩ := joins.gathers
  have grown := growth.size_le
  rw [size_addOuter] at grown
  rw [node_addOuter_entry] at entryNode
  rw [compile_alternate]
  apply compiles_addOuter growth
  · rw [entryNode]
  · intro low fromLow tidy
    refine joins.tidy ?_ ?_ tidy
    · rw [size_addOuter]
      omega
    · show low ≤ base.nodes.size + 1
      omega
  · refine ⟨count, ?_, ?_⟩
    · intro final conditions later listed
      have entryNow : final.node base.nodes.size = ⟨edges, none, owner⟩ := by
        rw [later.node_eq (by omega) (by omega), entryNode]
        rfl
      refine (Recognizes.choose (inner_of_node entryNow)
        (joins.branches later.extends listed)).congr fun before after => ?_
      rw [Pattern.Matches, Pattern.matchesOne_iff]
      simp
    · intro final conditions number later listed above below
      refine (settled later.extends listed above below).mono ?_
      rw [size_addOuter]
      omega

/-! ## Repetitions -/

/-- Add an edge if it is wanted. -/
def addEdgeIf (nfa : Nfa) (wanted : Bool) (source : Nat) (edge : Edge) : Nfa :=
  if wanted then nfa.addEdge source edge else nfa

section Wanted

variable {wanted : Bool} {source node target : Nat} {edge : Edge}
  {changed : Nat → Prop}

omit [CharacterData] in
@[simp] theorem size_addEdgeIf :
    (base.addEdgeIf wanted source edge).nodes.size = base.nodes.size := by
  cases wanted with
  | true => exact size_addEdge
  | false => rfl

omit [CharacterData] in
@[simp] theorem conditions_addEdgeIf :
    (base.addEdgeIf wanted source edge).conditions = base.conditions := by
  cases wanted <;> rfl

omit [CharacterData] in
theorem node_addEdgeIf_self (inside : source < base.nodes.size) :
    (base.addEdgeIf wanted source edge).node source =
      { base.node source with
        edges := (base.node source).edges ++ if wanted then [edge] else [] } := by
  cases wanted with
  | true => exact node_addEdge_self inside
  | false => simp [addEdgeIf]

omit [CharacterData] in
theorem node_addEdgeIf_of_ne (other : node ≠ source) :
    (base.addEdgeIf wanted source edge).node node = base.node node := by
  cases wanted with
  | true => exact node_addEdge_of_ne other
  | false => rfl

omit [CharacterData] in
theorem owner_addEdgeIf :
    ((base.addEdgeIf wanted source edge).node node).owner =
      (base.node node).owner := by
  cases wanted with
  | true => exact owner_addEdge
  | false => rfl

omit [CharacterData] in
theorem Extends.addEdgeIf
    (growth : Extends changed base result)
    (inside : changed source ∨ base.nodes.size ≤ source) :
    Extends changed base (result.addEdgeIf wanted source edge) := by
  cases wanted with
  | true => exact growth.addEdge inside edge
  | false => exact growth

omit [CharacterData] in
theorem Tidy.addFreeIf
    {low : Nat}
    (tidy : base.Tidy low)
    (inside : source < base.nodes.size)
    (bounds : low ≤ target ∧ target < base.nodes.size)
    (sameOwner : (base.node target).owner = (base.node source).owner) :
    (base.addEdgeIf wanted source (.free target)).Tidy low := by
  cases wanted with
  | true => exact tidy.addFree inside bounds sameOwner
  | false => exact tidy

end Wanted

/-- Put a fragment between two nodes, with an edge back and an edge past it if
they are wanted. -/
def bridgeAgain (outer : Fragment) (outcome : Nfa × Fragment)
    (again past : Bool) : Nfa :=
  ((bridge outer outcome).addEdgeIf again outcome.2.exit
    (.free outcome.2.entry)).addEdgeIf past outer.entry (.free outer.exit)

section Again

variable {outer : Fragment} {outcome : Nfa × Fragment} {again past : Bool}

omit [CharacterData] in
theorem extends_bridgeAgain
    (builds : Builds owner base outcome.1 outcome.2) :
    Extends (· = outer.entry) base (bridgeAgain outer outcome again past) :=
  ((extends_bridge builds).addEdgeIf (.inr builds.exitFresh)).addEdgeIf
    (.inl rfl)

omit [CharacterData] in
theorem node_bridgeAgain_entry
    (builds : Builds owner base outcome.1 outcome.2)
    (inside : outer.entry < base.nodes.size)
    (record : base.node outer.entry = ⟨[], none, owner⟩) :
    (bridgeAgain outer outcome again past).node outer.entry =
      ⟨.free outcome.2.entry :: if past then [.free outer.exit] else [],
        none, owner⟩ := by
  have grown := builds.growth.size_le
  have exitFresh := builds.exitFresh
  rw [bridgeAgain, node_addEdgeIf_self (by simp; omega),
    node_addEdgeIf_of_ne (by omega), node_bridge_entry builds inside, record]
  rfl

omit [CharacterData] in
theorem node_bridgeAgain_exit
    (builds : Builds owner base outcome.1 outcome.2)
    (inside : outer.entry < base.nodes.size) :
    (bridgeAgain outer outcome again past).node outcome.2.exit =
      ⟨.free outer.exit :: if again then [.free outcome.2.entry] else [],
        none, owner⟩ := by
  have exitFresh := builds.exitFresh
  rw [bridgeAgain, node_addEdgeIf_of_ne (by omega),
    node_addEdgeIf_self (by rw [size_bridge]; exact builds.inside),
    node_bridge_exit builds inside]
  rfl

omit [CharacterData] in
theorem later_bridgeAgain
    (builds : Builds owner base outcome.1 outcome.2)
    (inside : outer.entry < base.nodes.size) :
    Later base outcome.2.entry outcome.2.exit outcome.1
      (bridgeAgain outer outcome again past) := by
  have entryFresh := builds.entryFresh
  exact ((later_bridge builds inside).addEdgeIf (.inl (.inr rfl))).addEdgeIf
    (.inl (.inl ⟨inside, by omega⟩))

omit [CharacterData] in
theorem tidy_bridgeAgain
    {low : Nat}
    (builds : Builds owner base outcome.1 outcome.2)
    (fromLow : low ≤ base.nodes.size)
    (entryInside : outer.entry < base.nodes.size)
    (exitFromLow : low ≤ outer.exit)
    (exitInside : outer.exit < base.nodes.size)
    (entryOwner : (base.node outer.entry).owner = owner)
    (exitOwner : (base.node outer.exit).owner = owner)
    (tidy : base.Tidy low) :
    (bridgeAgain outer outcome again past).Tidy low := by
  have grown := builds.growth.size_le
  have entryFresh := builds.entryFresh
  have outside {node : Nat} (inside : node < base.nodes.size) :
      ((bridge outer outcome).node node).owner = (base.node node).owner := by
    rw [bridge, owner_addEdge, owner_addEdge, builds.growth.node_eq inside id]
  refine ((tidy_bridge builds fromLow entryInside exitFromLow exitInside
    entryOwner exitOwner tidy).addFreeIf ?_ ⟨by omega, ?_⟩ ?_).addFreeIf ?_
    ⟨exitFromLow, ?_⟩ ?_
  · rw [size_bridge]
    exact builds.inside
  · rw [size_bridge]
    exact builds.entryInside
  · rw [node_bridge_exit builds entryInside, bridge, owner_addEdge,
      owner_addEdge, builds.entryOwner]
  · rw [size_addEdgeIf, size_bridge]
    omega
  · rw [size_addEdgeIf, size_bridge]
    omega
  · rw [owner_addEdgeIf, owner_addEdgeIf, outside exitInside,
      outside entryInside, entryOwner, exitOwner]

end Again

/-- What a repeated fragment recognizes. -/
theorem Recognizes.repeated
    {holds : Nat → List CodeUnit → Prop}
    {outer inner : Fragment}
    {item : Pattern}
    (repetition : Repetition)
    (recognizes : final.Recognizes holds (item.Matches anyCase) inner.entry
      inner.exit)
    (entryEdges : final.Inner outer.entry (.free inner.entry ::
      if repetition != .oneOrMore then [.free outer.exit] else []))
    (exitEdges : final.Inner inner.exit (.free outer.exit ::
      if repetition != .optional then [.free inner.entry] else [])) :
    final.Recognizes holds ((Pattern.repeat item repetition).Matches anyCase)
      outer.entry outer.exit := by
  cases repetition with
  | zeroOrMore =>
      refine ((recognizes.loop exitEdges).skip entryEdges).congr ?_
      intro before after
      rw [Pattern.Matches, ← Relation.reflGen_transGen]
  | oneOrMore =>
      refine ((recognizes.loop exitEdges).enter entryEdges).congr ?_
      intro before after
      rw [Pattern.Matches]
  | optional =>
      refine ((recognizes.leave exitEdges).skip entryEdges).congr ?_
      intro before after
      rw [Pattern.Matches]

theorem compiles_bridgeAgain
    {item : Pattern}
    {outcome : Nfa × Fragment}
    (repetition : Repetition)
    (first : Compiles anyCase owner (item.Matches anyCase) item.lookaheads
      (base.addOuter owner) outcome) :
    Compiles anyCase owner ((Pattern.repeat item repetition).Matches anyCase)
      item.lookaheads base
      (bridgeAgain ⟨base.nodes.size, base.nodes.size + 1⟩ outcome
        (repetition != .optional) (repetition != .oneOrMore),
        ⟨base.nodes.size, base.nodes.size + 1⟩) := by
  obtain ⟨outer, isOuter⟩ : ∃ outer : Fragment,
    outer = ⟨base.nodes.size, base.nodes.size + 1⟩ := ⟨_, rfl⟩
  obtain ⟨result, isResult⟩ : ∃ result, result = bridgeAgain outer outcome
    (repetition != .optional) (repetition != .oneOrMore) := ⟨_, rfl⟩
  have isEntry : outer.entry = base.nodes.size := by rw [isOuter]
  have isExit : outer.exit = base.nodes.size + 1 := by rw [isOuter]
  have entryInside : outer.entry < (base.addOuter owner).nodes.size := by
    rw [isEntry, size_addOuter]
    omega
  have growth : Extends (· = outer.entry) (base.addOuter owner) result :=
    isResult ▸ extends_bridgeAgain first.builds
  have entryNode : result.node outer.entry = _ :=
    isResult ▸ node_bridgeAgain_entry first.builds entryInside
      (isEntry ▸ node_addOuter_entry)
  have exitNode : result.node outcome.2.exit = _ :=
    isResult ▸ node_bridgeAgain_exit first.builds entryInside
  have sameSize : result.nodes.size = outcome.1.nodes.size := by
    rw [isResult, bridgeAgain, size_addEdgeIf, size_addEdgeIf, size_bridge]
  have sameCount : result.conditions.size = outcome.1.conditions.size := by
    rw [isResult, bridgeAgain, conditions_addEdgeIf, conditions_addEdgeIf]
    rfl
  have entryFresh := first.builds.entryFresh
  have exitFresh := first.builds.exitFresh
  have exitInside := first.builds.inside
  have grown := growth.size_le
  rw [size_addOuter] at entryFresh exitFresh grown
  have innerLater {final : Nfa}
      (later : Later base base.nodes.size (base.nodes.size + 1) result final) :
      Later (base.addOuter owner) outcome.2.entry outcome.2.exit outcome.1
        final := by
    refine Extends.trans (isResult ▸ later_bridgeAgain first.builds entryInside)
      later fun node changed => .inl (.inl ?_)
    rw [size_addOuter]
    omega
  rw [← isOuter, ← isResult, isOuter]
  apply compiles_addOuter (isEntry ▸ growth)
  · rw [← isEntry, entryNode]
  · intro low fromLow tidy
    rw [isResult]
    apply tidy_bridgeAgain first.builds _ entryInside _ _ _ _ tidy
    · rw [size_addOuter]
      omega
    · omega
    · rw [size_addOuter]
      omega
    · rw [isEntry, node_addOuter_entry]
    · rw [isExit, node_addOuter_exit]
  · refine ⟨sameCount.trans first.means.count, ?_, ?_⟩
    · intro final conditions later listed
      rw [← isExit]
      nth_rewrite 1 [← isEntry]
      refine Recognizes.repeated repetition
        (first.means.recognizes (innerLater later) listed) ?_ ?_
      · exact inner_of_node
          ((later.node_eq (by omega) (by omega)).trans entryNode)
      · exact inner_of_node
          ((later.node_eq (by omega) (by omega)).trans exitNode)
    · intro final conditions number later listed above below
      rw [sameCount] at below
      refine (first.means.settled (innerLater later) listed above below).mono ?_
      rw [size_addOuter]
      omega

theorem compile_repeat (item : Pattern) (repetition : Repetition) :
    base.compile owner (.repeat item repetition) =
      (bridgeAgain ⟨base.nodes.size, base.nodes.size + 1⟩
        ((base.addOuter owner).compile owner item) (repetition != .optional)
          (repetition != .oneOrMore),
        ⟨base.nodes.size, base.nodes.size + 1⟩) := by
  have second : base.nodes.size + 1 = (base.addNode owner).1.nodes.size :=
    size_addNode.symm
  rw [compile, second]
  cases repetition <;> rfl

theorem compilable_repeat
    {item : Pattern}
    (repetition : Repetition)
    (compilable : Compilable anyCase item) :
    Compilable anyCase (.repeat item repetition) := by
  intro owner base isCase
  rw [compile_repeat, Pattern.lookaheads]
  exact compiles_bridgeAgain repetition (compilable isCase)

end Nfa
end Lexical
end ParserGenerator
