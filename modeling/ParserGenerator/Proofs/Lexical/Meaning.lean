import ParserGenerator.Proofs.Lexical.Fragments
import ParserGenerator.Proofs.Lexical.Paths

/-!
# The meaning of fragments

A fragment recognizes a language and adds conditions, whatever is built later,
since only its exit and older nodes change from then on. A condition is met
where its fragment accepts, and the tests that its fragment makes are those of
earlier conditions. Fragments one after the other recognize the languages one
after the other: so do the characters of a text and the items of a sequence.
-/

namespace ParserGenerator
namespace Lexical

theorem prefix_drop_append
    {α : Type}
    {first second all : List α}
    {count : Nat}
    (listed : first ++ second <+: all.drop count) :
    first <+: all.drop count ∧ second <+: all.drop (count + first.length) := by
  refine ⟨(List.prefix_append first second).trans listed, ?_⟩
  obtain ⟨rest, isAll⟩ := listed
  rw [← List.drop_drop, ← isAll, List.append_assoc, List.drop_left]
  exact List.prefix_append second rest

variable [CharacterData]

/-- One of some conditions holds with the given text ahead. -/
def Holds (anyCase : Bool) (conditions : List Pattern) (number : Nat)
    (before : List CodeUnit) : Prop :=
  ∃ condition, conditions[number]? = some condition ∧
    ∃ rest, condition.Matches anyCase before rest

namespace Nfa

variable {owner : Option Nat} {base middle result final : Nfa}
  {anyCase : Bool}

/-- A condition holds where its fragment accepts, and no test of its fragment
is of a condition that comes later. -/
structure Settled (nfa : Nfa) (holds : Nat → List CodeUnit → Prop)
    (low number : Nat) : Prop where
  /-- The entry of the condition is not among the nodes below `low`. -/
  entryFresh : low ≤ Numbering.conditionEntry nfa number
  /-- The entry of the condition exists. -/
  entryInside : Numbering.conditionEntry nfa number < nfa.nodes.size
  /-- The condition belongs to no terminal. -/
  owner : (nfa.node (Numbering.conditionEntry nfa number)).owner = none
  /-- The condition holds where its fragment accepts. -/
  meets : ∀ before, holds number before ↔ ∃ place,
    nfa.Reaches holds (Numbering.conditionEntry nfa number, before) place ∧
      (nfa.node place.1).accept = some .condition
  /-- The fragment tests earlier conditions only. -/
  region : ∃ inside : Nat → Prop,
    inside (Numbering.conditionEntry nfa number) ∧
      ∀ node edge, inside node → edge ∈ (nfa.node node).edges →
        inside edge.target ∧ ∀ tested negated target,
          edge = .test tested negated target → tested < number

theorem Settled.mono
    {holds : Nat → List CodeUnit → Prop}
    {low lower number : Nat}
    (settled : final.Settled holds low number)
    (less : lower ≤ low) :
    final.Settled holds lower number :=
  { settled with entryFresh := Nat.le_trans less settled.entryFresh }

/-- What is built later changes older nodes and the exit only. -/
def Later (base : Nfa) (entry exit : Nat) (result final : Nfa) : Prop :=
  Extends (fun node => node < base.nodes.size ∧ node ≠ entry ∨ node = exit)
    result final

/-- Between two nodes a language is recognized and some conditions are
added, whatever is built later. -/
structure Means (anyCase : Bool) (language : Language)
    (lookaheads : List Pattern) (entry exit : Nat) (base result : Nfa) :
    Prop where
  /-- The number of conditions added. -/
  count : result.conditions.size = base.conditions.size + lookaheads.length
  /-- The paths between the nodes. -/
  recognizes : ∀ {final conditions}, Later base entry exit result final →
    lookaheads <+: conditions.drop base.conditions.size →
      final.Recognizes (Holds anyCase conditions) language entry exit
  /-- The conditions added. -/
  settled : ∀ {final conditions number}, Later base entry exit result final →
    lookaheads <+: conditions.drop base.conditions.size →
      base.conditions.size ≤ number → number < result.conditions.size →
        final.Settled (Holds anyCase conditions) base.nodes.size number

theorem Means.congr
    {language other : Language}
    {lookaheads : List Pattern}
    {entry exit : Nat}
    (means : Means anyCase language lookaheads entry exit base result)
    (same : ∀ before after, language before after ↔ other before after) :
    Means anyCase other lookaheads entry exit base result where
  count := means.count
  recognizes := fun later listed =>
    (means.recognizes later listed).congr same
  settled := means.settled

omit [CharacterData] in
theorem inner_of_node
    {node : Nat}
    {edges : List Edge}
    (record : final.node node = ⟨edges, none, owner⟩) :
    final.Inner node edges :=
  ⟨by rw [record], by rw [record]⟩

/-! ## One after the other -/

theorem Means.nothing
    (start : Nat)
    (base : Nfa) :
    Means anyCase Eq [] start start base base where
  count := rfl
  recognizes := fun _ _ => .nothing start
  settled := fun _ _ above below => absurd below (Nat.not_lt.mpr above)

section Sequence

variable {language rest : Language} {lookaheads more : List Pattern}
  {start exit : Nat} {fragment : Fragment}

omit [CharacterData] in
theorem Continues.sequence
    (inside : start < base.nodes.size)
    (record : base.node start = ⟨[], none, owner⟩)
    (builds : Builds owner base middle fragment)
    (continues : Continues owner (· = fragment.exit) exit
      (middle.addEdge start (.free fragment.entry)) result) :
    Continues owner (· = start) exit base result := by
  have exitFresh := builds.exitFresh
  have linked : Extends (· = start) base
      (middle.addEdge start (.free fragment.entry)) := by
    have grown : Extends (· = start) base middle :=
      (Extends.refl _ base).trans builds.growth fun _ => False.elim
    exact grown.addEdge (.inl rfl) _
  have grown := linked.size_le
  constructor
  · exact linked.trans continues.growth fun node same => .inr (by omega)
  · exact continues.inside
  · rcases continues.fresh with same | isNew
    · exact .inr (by omega)
    · exact .inr (by omega)
  · exact continues.record
  · intro low fromLow changed tidy
    have startFromLow := changed start rfl
    apply continues.tidy (by omega) (fun node same => by omega)
    apply (builds.tidy fromLow (fun _ => False.elim) tidy).addFree
    · exact Nat.lt_of_lt_of_le inside builds.growth.size_le
    · exact ⟨Nat.le_trans fromLow builds.entryFresh, builds.entryInside⟩
    · rw [builds.entryOwner, builds.growth.node_eq inside id, record]

theorem Means.sequence
    (inside : start < base.nodes.size)
    (record : base.node start = ⟨[], none, owner⟩)
    (builds : Builds owner base middle fragment)
    (continues : Continues owner (· = fragment.exit) exit
      (middle.addEdge start (.free fragment.entry)) result)
    (first : Means anyCase language lookaheads fragment.entry fragment.exit
      base middle)
    (second : Means anyCase rest more fragment.exit exit
      (middle.addEdge start (.free fragment.entry)) result) :
    Means anyCase
      (fun before after => ∃ between, language before between ∧
        rest between after)
      (lookaheads ++ more) start exit base result := by
  have exitFresh := builds.exitFresh
  have entryFresh := builds.entryFresh
  have exitInside := builds.inside
  have grown := builds.growth.size_le
  have counted : (middle.addEdge start (.free fragment.entry)).conditions.size =
      base.conditions.size + lookaheads.length := first.count
  have exitAbove : base.nodes.size ≤ exit := by
    rcases continues.fresh with same | isNew
    · omega
    · rw [size_addEdge] at isNew
      omega
  have firstLater {final : Nfa} (later : Later base start exit result final) :
      Later base fragment.entry fragment.exit middle final := by
    have linked : Extends (fun node => node < base.nodes.size ∧
        node ≠ fragment.entry ∨ node = fragment.exit) middle
        (middle.addEdge start (.free fragment.entry)) :=
      (Extends.refl _ middle).addEdge (.inl (.inl ⟨inside, by omega⟩)) _
    refine (linked.trans continues.growth
      fun node same => .inl (.inr same)).trans later fun node changed => ?_
    rcases changed with ⟨isOld, -⟩ | rfl
    · exact .inl (.inl ⟨isOld, by omega⟩)
    · rcases continues.fresh with same | isNew
      · exact .inl (.inr same)
      · rw [size_addEdge] at isNew
        exact .inr isNew
  have secondLater {final : Nfa} (later : Later base start exit result final) :
      Later (middle.addEdge start (.free fragment.entry)) fragment.exit exit
        result final := by
    refine (Extends.refl _ result).trans later fun node changed => ?_
    rcases changed with ⟨isOld, -⟩ | same
    · rw [size_addEdge]
      exact .inl (.inl ⟨by omega, by omega⟩)
    · exact .inl (.inr same)
  constructor
  · rw [second.count, counted, List.length_append]
    omega
  · intro final conditions later listed
    obtain ⟨firstListed, secondListed⟩ := prefix_drop_append listed
    rw [← counted] at secondListed
    have linked : final.Inner start [.free fragment.entry] := by
      have unchanged : final.node start =
          (middle.addEdge start (.free fragment.entry)).node start := by
        rw [later.node_eq, continues.growth.node_eq]
        · rw [size_addEdge]
          omega
        · omega
        · have reached := continues.growth.size_le
          rw [size_addEdge] at reached
          omega
        · omega
      have now : final.node start =
          ⟨[.free fragment.entry], none, owner⟩ := by
        rw [unchanged, node_addEdge_self (by omega),
          builds.growth.node_eq inside id, record]
        rfl
      exact inner_of_node now
    exact ((first.recognizes (firstLater later) firstListed).enter linked).comp
      (second.recognizes (secondLater later) secondListed)
  · intro final conditions number later listed above below
    obtain ⟨firstListed, secondListed⟩ := prefix_drop_append listed
    rw [← counted] at secondListed
    by_cases early : number < middle.conditions.size
    · exact first.settled (firstLater later) firstListed above early
    · refine (second.settled (secondLater later) secondListed
        (Nat.not_lt.mp early) below).mono ?_
      rw [size_addEdge]
      exact grown

end Sequence

/-- A fragment with a meaning was compiled. -/
structure Compiles (anyCase : Bool) (owner : Option Nat) (language : Language)
    (lookaheads : List Pattern) (base : Nfa) (outcome : Nfa × Fragment) :
    Prop where
  /-- The fragment is fresh. -/
  builds : Builds owner base outcome.1 outcome.2
  /-- What the fragment means. -/
  means : Means anyCase language lookaheads outcome.2.entry outcome.2.exit
    base outcome.1

/-- What was compiled goes on from a node. -/
structure Carries (anyCase : Bool) (owner : Option Nat) (language : Language)
    (lookaheads : List Pattern) (start : Nat) (base : Nfa)
    (outcome : Nfa × Nat) : Prop where
  /-- Only the node changes. -/
  continues : Continues owner (· = start) outcome.2 base outcome.1
  /-- The node keeps its owner. -/
  startOwner : (outcome.1.node start).owner = owner
  /-- What is compiled from the node on means. -/
  means : Means anyCase language lookaheads start outcome.2 base outcome.1

section Outcomes

variable {language rest : Language} {lookaheads more : List Pattern}
  {start : Nat} {outcome : Nfa × Fragment} {onward : Nfa × Nat}

theorem Carries.nothing
    (inside : start < base.nodes.size)
    (record : base.node start = ⟨[], none, owner⟩) :
    Carries anyCase owner Eq [] start base (base, start) where
  continues := ⟨.refl _ base, inside, .inl rfl, record, fun _ _ => id⟩
  startOwner := by rw [record]
  means := .nothing start base

theorem Carries.cons
    (inside : start < base.nodes.size)
    (record : base.node start = ⟨[], none, owner⟩)
    (first : Compiles anyCase owner language lookaheads base outcome)
    (second : Carries anyCase owner rest more outcome.2.exit
      (outcome.1.addEdge start (.free outcome.2.entry)) onward) :
    Carries anyCase owner
      (fun before after => ∃ between, language before between ∧
        rest between after)
      (lookaheads ++ more) start base onward where
  continues := .sequence inside record first.builds second.continues
  startOwner := by
    have exitFresh := first.builds.exitFresh
    have grown := first.builds.growth.size_le
    rw [second.continues.growth.node_eq (by rw [size_addEdge]; omega) (by omega),
      owner_addEdge, first.builds.growth.node_eq inside id, record]
  means := .sequence inside record first.builds second.continues first.means
    second.means

theorem Carries.congr
    (carries : Carries anyCase owner language lookaheads start base onward)
    (same : ∀ before after, language before after ↔ rest before after) :
    Carries anyCase owner rest lookaheads start base onward :=
  ⟨carries.continues, carries.startOwner, carries.means.congr same⟩

theorem Compiles.congr
    (compiles : Compiles anyCase owner language lookaheads base outcome)
    (same : ∀ before after, language before after ↔ rest before after) :
    Compiles anyCase owner rest lookaheads base outcome :=
  ⟨compiles.builds, compiles.means.congr same⟩

/-- What is compiled from a fresh node on is a fragment. -/
theorem Carries.compiles
    (carries : Carries anyCase owner language lookaheads base.nodes.size
      (base.addNode owner).1 onward) :
    Compiles anyCase owner language lookaheads base
      (onward.1, ⟨base.nodes.size, onward.2⟩) := by
  have grown := carries.continues.growth.size_le
  rw [size_addNode] at grown
  have sameLater {final : Nfa}
      (later : Later base base.nodes.size onward.2 onward.1 final) :
      Later (base.addNode owner).1 base.nodes.size onward.2 onward.1 final := by
    refine (Extends.refl _ _).trans later fun node changed => .inl ?_
    rw [size_addNode]
    exact changed.imp_left fun ⟨isOld, other⟩ => ⟨by omega, other⟩
  refine ⟨⟨⟨?_, carries.continues.inside, ?_, carries.continues.record, ?_⟩,
    Nat.le_refl _, grown, carries.startOwner⟩, carries.means.count,
    fun later => carries.means.recognizes (sameLater later),
    fun later listed above below => ?_⟩
  · exact ((Extends.refl _ base).addNode owner).trans carries.continues.growth
      fun node same => .inr (Nat.le_of_eq same.symm)
  · refine .inr ?_
    rcases carries.continues.fresh with same | isNew
    · exact Nat.le_of_eq same.symm
    · rw [size_addNode] at isNew
      exact Nat.le_of_succ_le isNew
  · intro low fromLow _ tidy
    refine carries.continues.tidy ?_ (fun node same => same ▸ fromLow)
      (tidy.addNode owner)
    rw [size_addNode]
    omega
  · refine (carries.means.settled (sameLater later) listed above below).mono ?_
    rw [size_addNode]
    exact Nat.le_succ _

end Outcomes

/-! ## Characters and texts -/

/-- The fragment of a set recognizes its characters, whatever is built later and
whatever conditions hold. -/
theorem recognizes_compileSet
    {characters : CharSet}
    {holds : Nat → List CodeUnit → Prop}
    (apart : CharacterData.SurrogatesApart)
    (normal : characters.Normal)
    (isCase : base.anyCase = anyCase)
    (later : Later base (base.compileSet owner characters).2.entry
      (base.compileSet owner characters).2.exit
      (base.compileSet owner characters).1 final) :
    final.Recognizes holds (characters.inCase anyCase).Reads
      (base.compileSet owner characters).2.entry
      (base.compileSet owner characters).2.exit := by
  rw [compileSet_eq, isCase] at later ⊢
  obtain ⟨pairEdges, entryNode, pairs⟩ := @node_addCharacter_entry owner base
    (characters.inCase anyCase).toUnits
    (surrogatePairs (characters.inCase anyCase).supplementary)
  have grown := (@builds_addCharacter owner base
    (characters.inCase anyCase).toUnits
    (surrogatePairs (characters.inCase anyCase).supplementary)).entryInside
  have entryNow : final.node base.nodes.size = _ :=
    (later.node_eq grown (by dsimp only; omega)).trans entryNode
  have pairsNow : List.Forall₂ (fun edge run => ∃ middle,
      edge = .units (CharSet.ofRanges ⟨[run.1]⟩) middle ∧
        final.Inner middle
          [.units (CharSet.ofRanges run.2) (base.nodes.size + 1)])
      pairEdges
      (surrogatePairs (characters.inCase anyCase).supplementary) := by
    refine pairs.imp fun edge run found => ?_
    obtain ⟨middle, isNew, inside, isEdge, middleNode⟩ := found
    have middleNow : final.node middle = _ :=
      (later.node_eq inside (by dsimp only; omega)).trans middleNode
    exact ⟨middle, isEdge, inner_of_node middleNow⟩
  exact (Recognizes.character (inner_of_node entryNow) pairsNow).congr
    fun _ _ => reads_iff apart (CharSet.normal_inCase normal anyCase)

theorem builds_compileSet (characters : CharSet) :
    Builds owner base (base.compileSet owner characters).1
      (base.compileSet owner characters).2 := by
  rw [compileSet_eq]
  exact builds_addCharacter

theorem compiles_compileSet
    {characters : CharSet}
    (apart : CharacterData.SurrogatesApart)
    (normal : characters.Normal)
    (isCase : base.anyCase = anyCase) :
    Compiles anyCase owner (characters.inCase anyCase).Reads [] base
      (base.compileSet owner characters) := by
  have sameCount : (base.compileSet owner characters).1.conditions.size =
      base.conditions.size := by
    rw [compileSet_eq, conditions_addCharacter]
  refine ⟨builds_compileSet characters, sameCount, ?_, ?_⟩
  · intro final conditions later _
    exact recognizes_compileSet apart normal isCase later
  · intro final conditions number _ _ above below
    rw [sameCount] at below
    exact absurd below (Nat.not_lt.mpr above)

theorem carries_compileText
    {start : Nat}
    (apart : CharacterData.SurrogatesApart)
    (isCase : base.anyCase = anyCase)
    (inside : start < base.nodes.size)
    (record : base.node start = ⟨[], none, owner⟩)
    (characters : List Char) :
    Carries anyCase owner (Pattern.Spells anyCase characters) [] start base
      (base.compileText owner start characters) := by
  induction characters generalizing base start with
  | nil => exact .nothing inside record
  | cons character rest inductionHypothesis =>
      have first := @compiles_compileSet _ owner base anyCase
        (CharSet.single character.toNat) apart (CharSet.normal_single _) isCase
      refine .cons inside record first (inductionHypothesis ?_ ?_ ?_)
      · exact first.builds.growth.anyCase.trans isCase
      · rw [size_addEdge]
        exact first.builds.inside
      · have exitFresh := first.builds.exitFresh
        rw [node_addEdge_of_ne (by omega), first.builds.record]

/-! ## Sequences -/

/-- The fragments of a pattern recognize what it matches. -/
def Compilable (anyCase : Bool) (pattern : Pattern) : Prop :=
  ∀ {owner base}, base.anyCase = anyCase →
    Compiles anyCase owner (pattern.Matches anyCase) pattern.lookaheads base
      (base.compile owner pattern)

theorem carries_compileSequence
    {start : Nat}
    {items : List Pattern}
    (isCase : base.anyCase = anyCase)
    (inside : start < base.nodes.size)
    (record : base.node start = ⟨[], none, owner⟩)
    (compilable : ∀ item ∈ items, Compilable anyCase item) :
    Carries anyCase owner (Pattern.MatchesInTurn anyCase items)
      (Pattern.allLookaheads items) start base
      (base.compileSequence owner start items) := by
  induction items generalizing base start with
  | nil =>
      rw [compileSequence, Pattern.allLookaheads]
      exact (Carries.nothing inside record).congr fun before after => by
        rw [Pattern.MatchesInTurn]
  | cons item rest inductionHypothesis =>
      obtain ⟨itemCompilable, restCompilable⟩ :=
        List.forall_mem_cons.mp compilable
      have first : Compiles anyCase owner _ _ base (base.compile owner item) :=
        itemCompilable isCase
      have second := @inductionHypothesis
        ((base.compile owner item).1.addEdge start
          (.free (base.compile owner item).2.entry))
        (base.compile owner item).2.exit
        (first.builds.growth.anyCase.trans isCase)
        (by rw [size_addEdge]; exact first.builds.inside)
        (by
          have exitFresh := first.builds.exitFresh
          rw [node_addEdge_of_ne (by omega), first.builds.record])
        restCompilable
      rw [compileSequence, Pattern.allLookaheads]
      exact (Carries.cons inside record first second).congr
        fun before after => by rw [Pattern.MatchesInTurn]

end Nfa
end Lexical
end ParserGenerator
