import ParserGenerator.Proofs.Lexical.Bridges

/-!
# Compiled patterns

The fragment of a pattern recognizes what the pattern matches. A condition is
compiled apart, and an edge that tests it stands between two fresh nodes.
-/

namespace ParserGenerator
namespace Lexical
namespace Nfa

variable [CharacterData] {owner : Option Nat} {base final : Nfa}
  {anyCase : Bool} {conditions : List Pattern}

/-! ## Conditions -/

/-- Make a fragment a condition. -/
def closeCondition (outcome : Nfa × Fragment) : Nfa :=
  (outcome.1.setAccept outcome.2.exit .condition).addCondition outcome.2.entry

section Close

variable {outcome : Nfa × Fragment} {condition : Pattern}
  {lookaheads : List Pattern}

omit [CharacterData] in
@[simp] theorem size_closeCondition :
    (closeCondition outcome).nodes.size = outcome.1.nodes.size :=
  size_setAccept

omit [CharacterData] in
@[simp] theorem conditions_closeCondition :
    (closeCondition outcome).conditions =
      outcome.1.conditions.push outcome.2.entry := rfl

omit [CharacterData] in
theorem extends_closeCondition
    (changed : Nat → Prop)
    (inside : changed outcome.2.exit) :
    Extends changed outcome.1 (closeCondition outcome) :=
  ((Extends.refl _ _).setAccept (.inl inside) _).addCondition _

omit [CharacterData] in
theorem tidy_closeCondition
    {low : Nat}
    (builds : Builds none base outcome.1 outcome.2)
    (fromLow : low ≤ base.nodes.size)
    (tidy : base.Tidy low) :
    (closeCondition outcome).Tidy low := by
  have tidyInner := builds.tidy fromLow (fun _ => False.elim) tidy
  refine (tidyInner.setAccept builds.inside ?_).addCondition _
  rw [builds.record]
  rfl

omit [CharacterData] in
theorem conditionEntry_closeCondition
    {changed : Nat → Prop}
    (later : Extends changed (closeCondition outcome) final) :
    Numbering.conditionEntry final outcome.1.conditions.size =
      outcome.2.entry := by
  have last : (closeCondition outcome).conditions.toList[
      outcome.1.conditions.size]? = some outcome.2.entry := by
    rw [conditions_closeCondition]
    simp
  have found : final.conditions[outcome.1.conditions.size]? =
      some outcome.2.entry := by
    obtain ⟨others, isAll⟩ := later.conditions
    rw [← Array.getElem?_toList, ← isAll,
      List.getElem?_append_left (List.getElem?_eq_some_iff.mp last).1, last]
  rw [Numbering.conditionEntry, found]
  rfl

theorem holds_closeCondition
    (count : outcome.1.conditions.size =
      base.conditions.size + lookaheads.length)
    (listed : lookaheads ++ [condition] <+:
      conditions.drop base.conditions.size)
    (before : List CodeUnit) :
    Holds anyCase conditions outcome.1.conditions.size before ↔
      ∃ rest, condition.Matches anyCase before rest := by
  have found : conditions[outcome.1.conditions.size]? = some condition := by
    obtain ⟨-, others, isAll⟩ := prefix_drop_append listed
    rw [count, ← List.head?_drop, ← isAll]
    rfl
  rw [Holds, found]
  simp

/-- The new condition and those in its fragment are settled. -/
theorem settled_closeCondition
    {number : Nat}
    (first : Compiles anyCase none (condition.Matches anyCase) lookaheads base
      outcome)
    (later : Extends (· < base.nodes.size) (closeCondition outcome) final)
    (listed : lookaheads ++ [condition] <+:
      conditions.drop base.conditions.size)
    (above : base.conditions.size ≤ number)
    (below : number < (closeCondition outcome).conditions.size) :
    final.Settled (Holds anyCase conditions) base.nodes.size number := by
  have entryFresh := first.builds.entryFresh
  have exitFresh := first.builds.exitFresh
  have innerLater : Later base outcome.2.entry outcome.2.exit outcome.1
      final := by
    refine (extends_closeCondition _ (.inr rfl)).trans later
      fun node isOld => .inl (.inl ⟨isOld, by omega⟩)
  have innerListed := (prefix_drop_append listed).1
  by_cases early : number < outcome.1.conditions.size
  · exact first.means.settled innerLater innerListed above early
  have isLast : number = outcome.1.conditions.size := by
    rw [conditions_closeCondition, Array.size_push] at below
    omega
  have isEntry := conditionEntry_closeCondition later
  have recognizes := first.means.recognizes innerLater innerListed
  have nodeNow {node : Nat} (isNew : base.nodes.size ≤ node)
      (inside : node < outcome.1.nodes.size) :
      final.node node =
        (outcome.1.setAccept outcome.2.exit .condition).node node := by
    rw [later.node_eq (by rw [size_closeCondition]; exact inside) (by omega)]
    rfl
  have exitNow : final.node outcome.2.exit = ⟨[], some .condition, none⟩ := by
    rw [nodeNow exitFresh first.builds.inside,
      node_setAccept_self first.builds.inside, first.builds.record]
  rw [isLast]
  constructor
  · rw [isEntry]
    exact entryFresh
  · have grown := later.size_le
    rw [size_closeCondition] at grown
    rw [isEntry]
    exact Nat.lt_of_lt_of_le first.builds.entryInside grown
  · rw [isEntry, nodeNow entryFresh first.builds.entryInside, owner_setAccept,
      first.builds.entryOwner]
  · intro before
    rw [isEntry, holds_closeCondition first.means.count listed]
    constructor
    · rintro ⟨rest, isMatch⟩
      exact ⟨_, recognizes.complete isMatch, by rw [exitNow]⟩
    · rintro ⟨place, ⟨length, path⟩, accepts⟩
      rcases recognizes.sound path with
        noAccept | ⟨middle, short, -, isMatch, -⟩
      · rw [noAccept] at accepts
        cases accepts
      · exact ⟨middle, isMatch⟩
  · -- The fragment is what was added since the base, which is tidy by itself.
    have tidy : outcome.1.Tidy base.nodes.size :=
      first.builds.tidy (Nat.le_refl _) (fun _ => False.elim)
        (.of_size_le (Nat.le_refl _))
    refine ⟨fun node => base.nodes.size ≤ node ∧ node < outcome.1.nodes.size,
      ?_, ?_⟩
    · rw [isEntry]
      exact ⟨entryFresh, first.builds.entryInside⟩
    · rintro node edge ⟨isNew, inside⟩ member
      rw [nodeNow isNew inside, edges_setAccept] at member
      refine ⟨tidy.target isNew member, ?_⟩
      rintro tested negated target rfl
      exact tidy.bound isNew member

end Close

/-- Two fresh nodes with a test between them. -/
def addTest (nfa : Nfa) (owner : Option Nat) (number : Nat) (negated : Bool) :
    Nfa :=
  (nfa.addOuter owner).addEdge nfa.nodes.size
    (.test number negated (nfa.nodes.size + 1))

section Test

variable {number : Nat} {negated : Bool}

omit [CharacterData] in
theorem extends_addTest (changed : Nat → Prop) :
    Extends changed base (base.addTest owner number negated) :=
  (extends_addOuter _).addEdge (.inr (Nat.le_refl _)) _

omit [CharacterData] in
theorem node_addTest_entry :
    (base.addTest owner number negated).node base.nodes.size =
      ⟨[.test number negated (base.nodes.size + 1)], none, owner⟩ := by
  rw [addTest, node_addEdge_self (by simp), node_addOuter_entry]
  rfl

omit [CharacterData] in
theorem node_addTest_exit :
    (base.addTest owner number negated).node (base.nodes.size + 1) =
      ⟨[], none, owner⟩ := by
  rw [addTest, node_addEdge_of_ne (by omega), node_addOuter_exit]

omit [CharacterData] in
@[simp] theorem size_addTest :
    (base.addTest owner number negated).nodes.size = base.nodes.size + 2 := by
  rw [addTest, size_addEdge, size_addOuter]

omit [CharacterData] in
theorem tidy_addTest
    {low : Nat}
    (fromLow : low ≤ base.nodes.size)
    (known : number < base.conditions.size)
    (tidy : base.Tidy low) :
    (base.addTest owner number negated).Tidy low := by
  refine (tidy.addOuter owner).addEdge (by rw [size_addOuter]; omega)
    ⟨?_, by simp [Edge.target]⟩ ?_ ?_
  · show low ≤ base.nodes.size + 1
    omega
  · show ((base.addOuter owner).node (base.nodes.size + 1)).owner =
      ((base.addOuter owner).node base.nodes.size).owner
    rw [node_addOuter_entry, node_addOuter_exit]
  · intro condition opposed target isTest
    injection isTest with sameNumber
    refine ⟨sameNumber ▸ known, ?_⟩
    show ((base.addOuter owner).node base.nodes.size).edges = []
    rw [node_addOuter_entry]

end Test

theorem compiles_addTest
    {condition : Pattern}
    {outcome : Nfa × Fragment}
    (negated : Bool)
    (first : Compiles anyCase none (condition.Matches anyCase)
      condition.lookaheads base outcome) :
    Compiles anyCase owner ((Pattern.lookahead condition negated).Matches anyCase)
      (condition.lookaheads ++ [condition]) base
      ((closeCondition outcome).addTest owner outcome.1.conditions.size negated,
        ⟨(closeCondition outcome).nodes.size,
          (closeCondition outcome).nodes.size + 1⟩) := by
  obtain ⟨closed, isClosed⟩ : ∃ closed, closed = closeCondition outcome :=
    ⟨_, rfl⟩
  have sameSize : outcome.1.nodes.size = closed.nodes.size := by
    rw [isClosed, size_closeCondition]
  have counted : closed.conditions.size = outcome.1.conditions.size + 1 := by
    rw [isClosed, conditions_closeCondition, Array.size_push]
  have grown := first.builds.growth.size_le
  have growth : Extends (fun _ => False) base closed := by
    refine first.builds.growth.trans
      (isClosed ▸ extends_closeCondition (· = outcome.2.exit) rfl) ?_
    intro node same
    exact .inr (same ▸ first.builds.exitFresh)
  have exitInside : closed.nodes.size + 1 <
      (closed.addTest owner outcome.1.conditions.size negated).nodes.size := by
    simp
  rw [← isClosed]
  refine ⟨⟨⟨growth.trans (extends_addTest _) fun _ => False.elim, exitInside,
    .inr ?_, node_addTest_exit, ?_⟩, ?_, Nat.lt_of_succ_lt exitInside, ?_⟩,
    ?_, ?_, ?_⟩
  · show base.nodes.size ≤ closed.nodes.size + 1
    omega
  · intro low fromLow _ tidy
    refine tidy_addTest (by omega) (by omega) ?_
    exact isClosed ▸ tidy_closeCondition first.builds fromLow tidy
  · show base.nodes.size ≤ closed.nodes.size
    omega
  · show ((closed.addTest owner outcome.1.conditions.size negated).node
      closed.nodes.size).owner = owner
    rw [node_addTest_entry]
  · show closed.conditions.size = _
    rw [counted, first.means.count, List.length_append]
    rfl
  · intro final conditions later listed
    have entryNow : final.node closed.nodes.size = _ :=
      (later.node_eq (Nat.lt_of_succ_lt exitInside) (by dsimp only; omega)).trans
        node_addTest_entry
    refine (Recognizes.test (inner_of_node entryNow)).congr
      fun before after => ?_
    rw [Pattern.Matches, holds_closeCondition first.means.count listed]
  · intro final conditions number later listed above below
    refine settled_closeCondition first ?_ listed above (isClosed ▸ below)
    rw [← isClosed]
    refine (extends_addTest _).trans later fun node changed => ?_
    rcases changed with ⟨isOld, -⟩ | same
    · exact .inl isOld
    · exact .inr (by dsimp only at same; omega)

theorem compile_lookahead (condition : Pattern) (negated : Bool) :
    base.compile owner (.lookahead condition negated) =
      ((closeCondition (base.compile none condition)).addTest owner
        (base.compile none condition).1.conditions.size negated,
        ⟨(closeCondition (base.compile none condition)).nodes.size,
          (closeCondition (base.compile none condition)).nodes.size + 1⟩) := by
  have second : (closeCondition (base.compile none condition)).nodes.size + 1 =
      ((closeCondition (base.compile none condition)).addNode
        owner).1.nodes.size := size_addNode.symm
  rw [compile, addTest, second]
  rfl

theorem compilable_lookahead
    {condition : Pattern}
    (negated : Bool)
    (compilable : Compilable anyCase condition) :
    Compilable anyCase (.lookahead condition negated) := by
  intro owner base isCase
  rw [compile_lookahead, Pattern.lookaheads]
  exact compiles_addTest negated (compilable isCase)

/-- The fragment of a pattern recognizes what the pattern matches. -/
theorem compilable_of_normal
    (apart : CharacterData.SurrogatesApart)
    (pattern : Pattern)
    (normal : pattern.Normal) :
    Compilable anyCase pattern := by
  induction pattern using Pattern.induction with
  | text content =>
      intro owner base isCase
      have carries := @carries_compileText _ owner (base.addNode owner).1
        anyCase base.nodes.size apart isCase (by simp) node_addNode_self
        content.toList
      rw [compile, Pattern.lookaheads]
      exact carries.compiles.congr fun before after => by
        rw [Pattern.Matches]
  | set characters =>
      intro owner base isCase
      rw [Pattern.Normal] at normal
      rw [compile, Pattern.lookaheads]
      exact (compiles_compileSet apart normal isCase).congr
        fun before after => by rw [Pattern.Matches]
  | concat items inductionHypothesis =>
      intro owner base isCase
      rw [Pattern.Normal, Pattern.allNormal_iff] at normal
      have carries := @carries_compileSequence _ owner (base.addNode owner).1
        anyCase base.nodes.size items isCase (by simp) node_addNode_self
        fun item member => inductionHypothesis item member (normal item member)
      rw [compile, Pattern.lookaheads]
      exact carries.compiles.congr fun before after => by
        rw [Pattern.Matches]
  | alternate items inductionHypothesis =>
      rw [Pattern.Normal, Pattern.allNormal_iff] at normal
      exact compilable_alternate fun item member =>
        inductionHypothesis item member (normal item member)
  | repeated item repetition inductionHypothesis =>
      rw [Pattern.Normal] at normal
      exact compilable_repeat repetition (inductionHypothesis normal)
  | lookahead condition negated inductionHypothesis =>
      rw [Pattern.Normal] at normal
      exact compilable_lookahead negated (inductionHypothesis normal)

end Nfa
end Lexical
end ParserGenerator
